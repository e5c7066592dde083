import FileServer.Proof.Concurrent.TaskQueue
import Mathlib.Data.Fintype.Option

/-!
# Stages of a thread of the pool

What the log of the pool tells, and what each thread may do next.
-/

namespace FileServer
open Program
variable {n : Nat}

/-! ## The log -/

namespace PoolEvent

def addedTasks : PoolEvent n → List PoolRequest
  | .added _ task => [task]
  | _ => []

def removedTasks : PoolEvent n → List PoolRequest
  | .taken _ task => [task]
  | .cleared tasks | .destroyed tasks => tasks
  | _ => []

def takenBy (w : Fin n) : PoolEvent n → List PoolRequest
  | .taken v task => if v = w then [task] else []
  | _ => []

def calledBy (w : Fin n) : PoolEvent n → List PoolRequest
  | .called v task => if v = w then [task] else []
  | _ => []

end PoolEvent

abbrev PoolLog (n : Nat) := List (PoolEvent n)

namespace PoolLog

/-- The worker has an exit task and has not put it back. -/
def RunsExit (log : PoolLog n) (w : Fin n) : Prop :=
  .taken w exitTask ∈ log ∧ .added (some w) exitTask ∉ log

instance (log : PoolLog n) (w : Fin n) : Decidable (log.RunsExit w) :=
  inferInstanceAs (Decidable (_ ∧ _))

end PoolLog

/-! ## What a thread is doing -/

inductive Stage (n : Nat) where
  | idle
  | taken (task : PoolRequest)
  | called (task : PoolRequest)
  | putBack
  | gone
  | dispatching
  | made (args : Nat)
  | cleared
  | joining (left : List (Fin n))
  | destroyed

def PoolRequest.work : PoolRequest → Option Nat
  | ⟨_, some (.work args)⟩ => some args
  | _ => none

def IsTask (task : PoolRequest) : Prop := (∃ args, task = clientTask args) ∨ task = exitTask

namespace Stage

def allows : Stage n → PoolOp n → Prop
  | .idle, .poolTakeTask => True
  | .taken task, .call func args => task = ⟨some func, args⟩
  | .called task, .free args => ∃ a, task = clientTask a ∧ args = .work a
  | .called task, .threadPoolAdd _ func args => task = exitTask ∧ task = ⟨func, args⟩
  | .putBack, .exit => True
  | .gone, .call _ _ => False
  | .gone, _ => True
  | .dispatching, .makeWorkArgs _ => True
  | .made a, .threadPoolAdd _ func args => clientTask a = ⟨func, args⟩
  | .dispatching, .threadPoolClear => True
  | .cleared, .threadPoolAdd _ func args => exitTask = ⟨func, args⟩
  | .joining (w :: _), .join v => v = w
  | .joining [], .threadPoolDestroy => True
  | .destroyed, .exit => True
  | _, _ => False

def after : Stage n → (o : PoolOp n) → o.Resp → Stage n
  | _, .poolTakeTask, request => if request.func = none then .idle else .taken request
  | .taken task, .call _ _, _ => .called task
  | .called _, .free _, _ => .idle
  | .called _, .threadPoolAdd _ _ _, _ => .putBack
  | .dispatching, .makeWorkArgs args, _ => .made args
  | .made _, .threadPoolAdd _ _ _, _ => .dispatching
  | .cleared, .threadPoolAdd _ _ _, _ => .joining (List.finRange n)
  | _, .threadPoolClear, _ => .cleared
  | .joining (_ :: left), .join _, _ => .joining left
  | _, .threadPoolDestroy, _ => .destroyed
  | _, _, _ => .gone

def pending : Stage n → List PoolRequest
  | .taken task => [task]
  | _ => []

/-- The client's arguments that the thread has to pass on or to free. -/
def work : Stage n → Option Nat
  | .taken task | .called task => task.work
  | .made args => some args
  | _ => none

def Exits : Stage n → Prop
  | .taken task | .called task => task = exitTask
  | _ => False

def Left : Stage n → Prop
  | .putBack | .gone => True
  | _ => False

def OfMain : Stage n → Prop
  | .gone | .dispatching | .made _ | .cleared | .joining _ | .destroyed => True
  | _ => False

def OfWorker : Stage n → Prop
  | .idle | .putBack | .gone => True
  | .taken task | .called task => IsTask task
  | _ => False

def Between : Stage n → Prop
  | .idle | .gone | .dispatching => True
  | _ => False

end Stage

def Answer : Stage n → (o : PoolOp n) → o.Resp → Prop
  | .gone, _, _ => False
  | _, .poolTakeTask, request => IsTask request ∨ request = ⟨none, none⟩
  | _, _, _ => True

def poolDiscipline (n : Nat) : Discipline (PoolOp n) PoolOp.Resp (Stage n) where
  pre := Stage.allows
  post stage o x stage' := Answer stage o x ∧ stage' = stage.after o x

theorem wp_poolAct {o : PoolOp n} {post : o.Resp → Stage n → Prop} {stage : Stage n} :
    wp (poolDiscipline n) (PoolProgram.act o) post stage ↔
      stage.allows o ∧ ∀ x, Answer stage o x → post x (stage.after o x) := by
  simp [poolDiscipline]

theorem wp_gone {α : Type} (p : PoolProgram n α) (post : α → Stage n → Prop)
    (ends : ∀ a, post a .gone) (noCall : ∀ func args next, p ≠ .op (.call func args) next) :
    wp (poolDiscipline n) p post .gone := by
  cases p with
  | ret a => exact ends a
  | op o next =>
      refine ⟨?_, fun _ _ allowed => allowed.1.elim⟩
      cases o with
      | call func args => exact absurd rfl (noCall func args next)
      | _ => trivial

theorem wp_ThreadRequestExit (new : Nat) :
    wp (poolDiscipline n) (PoolProgram.ThreadRequestExit new (some .workerPool))
      (fun _ stage => stage = .gone) (.called exitTask) := by
  unfold PoolProgram.ThreadRequestExit
  rw [wp_bind, wp_poolAct]
  refine ⟨⟨rfl, rfl⟩, fun _ _ => ?_⟩
  rw [wp_poolAct]
  exact ⟨trivial, fun _ _ => rfl⟩

theorem wp_pool_worker (new : Nat) :
    wp (poolDiscipline n) (PoolProgram.poolWorker new) (fun _ stage => stage.Between) .idle := by
  unfold PoolProgram.poolWorker
  rw [wp_bind, wp_poolAct]
  refine ⟨trivial, fun request answer => ?_⟩
  obtain ⟨a, rfl⟩ | rfl | rfl := or_assoc.mp answer
  · -- a client's request: it is called, and its arguments are freed
    show wp _ ((PoolProgram.act _ >>= fun _ => pure ()) >>= fun _ => PoolProgram.act _) _
      (Stage.taken (clientTask a))
    rw [wp_bind, wp_bind, wp_poolAct]
    refine ⟨rfl, fun _ _ => ?_⟩
    show wp _ (PoolProgram.act _) _ (Stage.called (clientTask a))
    rw [wp_poolAct]
    exact ⟨⟨a, rfl, rfl⟩, fun _ _ => trivial⟩
  · -- `pthread_exit` does not return, so that the pool is not freed
    show wp _ ((PoolProgram.act _ >>= fun _ => PoolProgram.ThreadRequestExit new _) >>= fun _ =>
      PoolProgram.act _) _ (Stage.taken exitTask)
    rw [wp_bind, wp_bind, wp_poolAct]
    refine ⟨rfl, fun _ _ => ?_⟩
    apply wp_mono (wp_ThreadRequestExit new)
    rintro _ _ rfl
    exact wp_gone _ _ (fun _ => trivial) nofun
  · trivial

theorem wp_dispatch (requests : List (Nat × Nat)) :
    wp (poolDiscipline n) (PoolProgram.dispatch requests) (fun _ stage => stage = .dispatching)
      .dispatching := by
  induction requests with
  | nil => rfl
  | cons request rest ih =>
      unfold PoolProgram.dispatch
      rw [wp_bind, wp_poolAct]
      refine ⟨trivial, fun _ _ => ?_⟩
      rw [wp_bind, wp_poolAct]
      exact ⟨rfl, fun _ _ => ih⟩

theorem wp_workersDestroy (left : List (Fin n)) :
    wp (poolDiscipline n) (PoolProgram.workersDestroy left) (fun _ stage => stage = .joining [])
      (.joining left) := by
  induction left with
  | nil => rfl
  | cons w left ih =>
      unfold PoolProgram.workersDestroy
      rw [wp_bind, wp_poolAct]
      exact ⟨rfl, fun _ _ => ih⟩

theorem wp_pool_main (requests : List (Nat × Nat)) (new : Nat) :
    wp (poolDiscipline n) (PoolProgram.main requests new) (fun _ stage => stage.Between)
      .dispatching := by
  unfold PoolProgram.main
  rw [wp_bind]
  apply wp_mono (wp_dispatch requests)
  rintro _ _ rfl
  rw [wp_bind, wp_poolAct]
  refine ⟨trivial, fun _ _ => ?_⟩
  rw [wp_bind, wp_poolAct]
  refine ⟨rfl, fun _ _ => ?_⟩
  rw [wp_bind]
  apply wp_mono (wp_workersDestroy (List.finRange n))
  rintro _ _ rfl
  rw [wp_bind, wp_poolAct]
  refine ⟨trivial, fun _ _ => ?_⟩
  rw [wp_poolAct]
  exact ⟨trivial, fun _ _ => trivial⟩

end FileServer
