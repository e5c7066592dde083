import FileServer.Linked
import FileServer.Model.ThreadPool
import Mathlib.Data.Finset.Basic

/-!
# The task queue is a list

`queueAdd` puts a request at the end of the list that the cells spell, `queueTakeHead` takes the first
one off, and the loops of `threadPoolClear` and `threadPoolDestroy` go through the whole list.
-/

namespace FileServer

def clientTask (args : Nat) : PoolRequest := ⟨some .clientReadReq, some (.work args)⟩

def exitTask : PoolRequest := ⟨some .threadRequestExit, some .workerPool⟩

@[simp] theorem clientTask_ne_exitTask (args : Nat) : clientTask args ≠ exitTask := nofun

@[simp] theorem clientTask_inj {a b : Nat} : clientTask a = clientTask b ↔ a = b := by
  simp [clientTask]

namespace ThreadPool
variable {pool : ThreadPool} {addresses : List Nat} {tasks : List PoolRequest} {task : PoolRequest}

/-- The links from `queue` lead through the addresses, which are the cells allocated. -/
structure Chained (pool : ThreadPool) (addresses : List Nat) : Prop where
  segment : Segment (fun a => (pool.cells a).next) pool.queue addresses none
  allocated : pool.allocated = addresses.toFinset

/-- The cells hold `tasks`, first the one that is taken next. -/
def Lists (pool : ThreadPool) (tasks : List PoolRequest) : Prop :=
  ∃ addresses, pool.Chained addresses ∧ addresses.map (fun a => (pool.cells a).request) = tasks

def Queues (pool : ThreadPool) (tasks : List PoolRequest) : Prop :=
  ∃ addresses, pool.Chained addresses ∧ addresses.map (fun a => (pool.cells a).request) = tasks ∧
    pool.queueTail = addresses.getLast?

theorem Queues.lists (queues : pool.Queues tasks) : pool.Lists tasks := by
  obtain ⟨addresses, chained, requests, -⟩ := queues
  exact ⟨addresses, chained, requests⟩

theorem Chained.card (chained : pool.Chained addresses) :
    pool.allocated.card = addresses.length := by
  rw [chained.allocated, List.toFinset_card_of_nodup chained.segment.nodup]

theorem Chained.mem {a : Nat} (chained : pool.Chained addresses) :
    a ∈ pool.allocated ↔ a ∈ addresses := by
  rw [chained.allocated, List.mem_toFinset]

theorem Lists.card (lists : pool.Lists tasks) : pool.allocated.card = tasks.length := by
  obtain ⟨addresses, chained, rfl⟩ := lists
  rw [chained.card, List.length_map]

theorem next_update_new (cells : Nat → QueueCell) (new : Nat) (func : Option ThreadFunc)
    (args : Option TaskArgs) :
    (fun a => (Function.update cells new ⟨func, args, none⟩ a).next) =
      Function.update (fun a => (cells a).next) new none := by
  funext a
  by_cases same : a = new <;> simp [same]

theorem next_update_last (cells : Nat → QueueCell) (last new : Nat) :
    (fun a => (Function.update cells last { cells last with next := some new } a).next) =
      Function.update (fun a => (cells a).next) last (some new) := by
  funext a
  by_cases same : a = last <;> simp [same]

theorem request_update_last (cells : Nat → QueueCell) (last new : Nat) :
    (fun a => (Function.update cells last { cells last with next := some new } a).request) =
      fun a => (cells a).request := by
  funext a
  by_cases same : a = last <;> simp [same, QueueCell.request]

theorem map_request_update {cells : Nat → QueueCell} {new : Nat} (cell : QueueCell)
    (fresh : new ∉ addresses) :
    (addresses.map fun a => (Function.update cells new cell a).request) =
      addresses.map fun a => (cells a).request := by
  apply List.map_congr_left
  intro a mem
  rw [Function.update_of_ne (ne_of_mem_of_not_mem mem fresh)]

theorem queueAdd_queues (queues : pool.Queues tasks) {new : Nat} (fresh : new ∉ pool.allocated)
    (func : Option ThreadFunc) (args : Option TaskArgs) :
    ∃ pool', pool.queueAdd new func args = .ok pool' ∧ pool'.Queues (tasks ++ [⟨func, args⟩]) := by
  obtain ⟨addresses, chained, rfl, tail⟩ := queues
  rw [chained.mem] at fresh
  unfold queueAdd
  rw [if_neg (chained.mem.not.mpr fresh)]
  rcases List.eq_nil_or_concat addresses with rfl | ⟨front, last, split⟩
  · -- the new cell is the head and the tail
    have empty : pool.queue = none := chained.segment
    rw [empty]
    refine ⟨_, rfl, [new], ⟨⟨rfl, ?_⟩, ?_⟩, ?_, rfl⟩
    · simp
    · rw [chained.allocated]
      rfl
    · simp [QueueCell.request]
  · -- the last cell is linked to the new one
    rw [List.concat_eq_append] at split
    subst split
    obtain ⟨head, nonempty⟩ : ∃ head, pool.queue = some head := by
      cases front with
      | nil => exact ⟨last, chained.segment.1⟩
      | cons head front => exact ⟨head, chained.segment.1⟩
    rw [List.getLast?_concat] at tail
    have live : last ∈ insert new pool.allocated := by
      rw [Finset.mem_insert, chained.mem]
      exact .inr (by simp)
    simp only [nonempty, tail, if_pos live]
    refine ⟨_, rfl, front ++ [last] ++ [new], ⟨?_, ?_⟩, ?_, ?_⟩
    · have segment := chained.segment.snoc fresh
      rw [nonempty] at segment
      show Segment _ (some head) _ none
      rw [next_update_last, next_update_new]
      exact segment
    · show insert new pool.allocated = _
      rw [chained.allocated]
      ext a
      simp only [List.mem_toFinset, List.mem_append, Finset.mem_insert, List.mem_singleton]
      exact or_comm
    · rw [request_update_last, List.map_append, map_request_update _ fresh]
      simp [QueueCell.request]
    · simp

theorem queueTakeHead_nil (queues : pool.Queues []) :
    pool.queueTakeHead = .ok (1, ⟨none, none⟩, pool) := by
  obtain ⟨addresses, chained, requests, -⟩ := queues
  rw [List.map_eq_nil_iff] at requests
  subst requests
  have empty : pool.queue = none := chained.segment
  unfold queueTakeHead
  rw [empty]

theorem Chained.tail {a : Nat} (chained : pool.Chained (a :: addresses)) (queueTail : Option Nat) :
    Chained ⟨(pool.cells a).next, queueTail, pool.cells, pool.allocated.erase a⟩ addresses where
  segment := chained.segment.2
  allocated := by
    show pool.allocated.erase a = _
    rw [chained.allocated, List.toFinset_cons, Finset.erase_insert]
    rw [List.mem_toFinset]
    exact (List.nodup_cons.mp chained.segment.nodup).1

theorem queueTakeHead_cons (queues : pool.Queues (task :: tasks)) :
    ∃ pool', pool.queueTakeHead = .ok (0, task, pool') ∧ pool'.Queues tasks := by
  obtain ⟨addresses, chained, requests, tail⟩ := queues
  obtain ⟨head, rest, rfl, rfl, rfl⟩ := List.map_eq_cons_iff.mp requests
  have live : head ∈ pool.allocated := chained.mem.mpr List.mem_cons_self
  have first : pool.queue = some head := chained.segment.1
  unfold queueTakeHead
  simp only [first, if_pos live]
  refine ⟨_, rfl, rest, chained.tail _, rfl, ?_⟩
  cases rest with
  | nil =>
      have last : (pool.cells head).next = none := chained.segment.2
      simp [last]
  | cons second rest =>
      have more : (pool.cells head).next = some second := chained.segment.2.1
      simp [more, tail]

/-! ## The loops -/

theorem clearLoop_queues {args : List Nat} {work : Finset Nat} {fuel : Nat}
    (queues : pool.Queues (args.map clientTask)) (nodup : args.Nodup)
    (live : ∀ a ∈ args, a ∈ work) (enough : args.length < fuel) :
    ∃ pool', clearLoop fuel pool work = .ok (args.map clientTask, pool', work \ args.toFinset) ∧
      pool'.Queues [] := by
  induction fuel generalizing pool args work with
  | zero => cases enough
  | succ fuel ih =>
      unfold clearLoop
      cases args with
      | nil =>
          rw [queueTakeHead_nil queues]
          refine ⟨pool, ?_, queues⟩
          simp
      | cons a args =>
          obtain ⟨notLater, nodup'⟩ := List.nodup_cons.mp nodup
          obtain ⟨pool₁, taken, queues₁⟩ := queueTakeHead_cons queues
          have freed : freeArgs (.work a) work = .ok (work.erase a) :=
            if_pos (live a List.mem_cons_self)
          have live' : ∀ b ∈ args, b ∈ work.erase a := fun b mem =>
            Finset.mem_erase_of_ne_of_mem (ne_of_mem_of_not_mem mem notLater)
              (live b (List.mem_cons_of_mem a mem))
          obtain ⟨pool', cleared, empty⟩ := ih queues₁ nodup' live' (Nat.lt_of_succ_lt_succ enough)
          have rest : (work.erase a) \ args.toFinset = work \ (a :: args).toFinset := by
            rw [List.toFinset_cons, Finset.erase_sdiff_comm, Finset.sdiff_insert]
          refine ⟨pool', ?_, empty⟩
          rw [taken, ← rest]
          show (freeArgs (.work a) work).andThen _ = _
          rw [freed]
          show (clearLoop fuel pool₁ (work.erase a)).andThen _ = _
          rw [cleared]
          rfl

theorem threadPoolClear_queues {args : List Nat} {work : Finset Nat}
    (queues : pool.Queues (args.map clientTask)) (nodup : args.Nodup) (live : ∀ a ∈ args, a ∈ work) :
    ∃ pool', pool.threadPoolClear work = .ok (args.map clientTask, pool', work \ args.toFinset) ∧
      pool'.Queues [] := by
  apply clearLoop_queues queues nodup live
  rw [queues.lists.card, List.length_map]
  exact Nat.lt_succ_self _

theorem destroyLoop_lists {fuel : Nat} (lists : pool.Lists tasks) (enough : tasks.length < fuel) :
    ∃ pool', destroyLoop fuel pool = .ok (tasks, pool') ∧ pool'.Lists [] := by
  induction fuel generalizing pool tasks with
  | zero => cases enough
  | succ fuel ih =>
      obtain ⟨addresses, chained, rfl⟩ := lists
      unfold destroyLoop
      cases addresses with
      | nil =>
          have empty : pool.queue = none := chained.segment
          rw [empty]
          exact ⟨pool, rfl, [], chained, rfl⟩
      | cons head rest =>
          have live : head ∈ pool.allocated := chained.mem.mpr List.mem_cons_self
          have first : pool.queue = some head := chained.segment.1
          obtain ⟨pool', destroyed, empty⟩ :=
            ih ⟨rest, chained.tail pool.queueTail, rfl⟩ (Nat.lt_of_succ_lt_succ enough)
          refine ⟨pool', ?_, empty⟩
          simp only [first, if_pos live]
          rw [destroyed]
          rfl

theorem threadPoolDestroy_lists (lists : pool.Lists tasks) :
    ∃ pool', pool.threadPoolDestroy = .ok (tasks, pool') ∧ pool'.Lists [] := by
  apply destroyLoop_lists lists
  rw [lists.card]
  exact Nat.lt_succ_self _

end ThreadPool

end FileServer
