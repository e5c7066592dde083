import FileServer.Proof.Concurrent.TaskStages

/-!
# Where the tasks are

Who has the arguments of a task and the exit task, and what has happened before and after `main` adds the
latter.
-/

namespace FileServer
open Program
variable {n : Nat}

inductive ArgsPlace (n : Nat) where
  | queued
  | thread (t : PoolThread n)

/-- `place` says whose each struct is that `makeWorkArgs` has allocated. -/
structure WorkAt (G : PoolThread n → Stage n) (work : Finset Nat) (queued : List PoolRequest)
    (place : Nat → Option (ArgsPlace n)) : Prop where
  allocated : ∀ a, a ∈ work ↔ place a ≠ none
  waiting : ∀ a, clientTask a ∈ queued ↔ place a = some .queued
  once : ∀ a, queued.count (clientTask a) ≤ 1
  held : ∀ t a, (G t).work = some a ↔ place a = some (.thread t)

/-- The one exit task is in the queue, or a worker is at it. -/
inductive Token (G : PoolThread n → Stage n) : List PoolRequest → Prop where
  | queued (none : ∀ w, ¬(G (some w)).Exits) : Token G [exitTask]
  | held (w : Fin n) (holds : (G (some w)).Exits) (only : ∀ v, (G (some v)).Exits → v = w) : Token G []

/-- Before `main` adds the exit task there are clients' tasks only. -/
structure Opened (G : PoolThread n → Stage n) (log : PoolLog n) (queued : List PoolRequest) : Prop where
  main : G none = .dispatching ∨ (∃ a, G none = .made a) ∨ G none = .cleared ∧ queued = []
  clients : ∀ task ∈ log.flatMap PoolEvent.addedTasks, ∃ a, task = clientTask a
  workers : ∀ w, ¬(G (some w)).Exits ∧ ¬(G (some w)).Left
  kept : ∀ tasks, .destroyed tasks ∉ log

/-- `main` adds the exit task between `before` and `after`. -/
structure Closed (log : PoolLog n) (queued : List PoolRequest) (before after : PoolLog n) : Prop where
  split : log = before ++ .added none exitTask :: after
  clients : ∀ task ∈ before.flatMap PoolEvent.addedTasks, ∃ a, task = clientTask a
  cleared : before.flatMap PoolEvent.addedTasks = before.flatMap PoolEvent.removedTasks
  drained : ∀ task ∈ queued, task = exitTask
  taken : ∀ w task, .taken w task ∈ after → task = exitTask
  added : ∀ t task, .added t task ∈ after → t ≠ none ∧ task = exitTask

inductive Phase (G : PoolThread n → Stage n) (s : PoolState n) (queued : List PoolRequest) : Prop where
  | opened (queues : s.pool.Queues queued) (opened : Opened G s.log queued)
  | closing (queues : s.pool.Queues queued) {left : List (Fin n)} (main : G none = .joining left)
      (joined : ∀ w, w ∈ left ∨ G (some w) = .gone) (token : Token G queued)
      (kept : ∀ tasks, .destroyed tasks ∉ s.log) {before after : PoolLog n}
      (closed : Closed s.log queued before after)
  | ended (main : G none = .destroyed ∨ G none = .gone) (all : ∀ w, G (some w) = .gone)
      (empty : queued = []) (destroyed : ∀ tasks, .destroyed tasks ∈ s.log ↔ tasks = [exitTask])
      {before after : PoolLog n} (closed : Closed s.log queued before after)

structure Accounted (G : PoolThread n → Stage n) (s : PoolState n) (queued : List PoolRequest) :
    Prop where
  ofMain : (G none).OfMain
  ofWorker : ∀ w, (G (some w)).OfWorker
  tasks : ∀ task ∈ queued, IsTask task
  lists : s.pool.Lists queued
  work : ∃ place, WorkAt G s.work queued place
  order : s.log.flatMap PoolEvent.addedTasks = s.log.flatMap PoolEvent.removedTasks ++ queued
  once : ∀ w, s.log.flatMap (PoolEvent.takenBy w) =
    s.log.flatMap (PoolEvent.calledBy w) ++ (G (some w)).pending
  gone : ∀ t, .exited t ∈ s.log ↔ G t = .gone
  took : ∀ w, .taken w exitTask ∈ s.log ↔ (G (some w)).Exits ∨ (G (some w)).Left
  putBack : ∀ w, .added (some w) exitTask ∈ s.log ↔ (G (some w)).Left
  phase : Phase G s queued

section
variable {G : PoolThread n → Stage n} {s : PoolState n} {queued : List PoolRequest}
  {task : PoolRequest} {place : Nat → Option (ArgsPlace n)} {work : Finset Nat} {w : Fin n}
  {t : PoolThread n} {log before after : PoolLog n} {pool : ThreadPool}

@[simp] theorem PoolState.record_pool (s : PoolState n) (e : PoolEvent n) : (s.record e).pool = s.pool :=
  rfl

@[simp] theorem PoolState.record_work (s : PoolState n) (e : PoolEvent n) : (s.record e).work = s.work :=
  rfl

@[simp] theorem PoolState.record_log (s : PoolState n) (e : PoolEvent n) :
    (s.record e).log = s.log ++ [e] := rfl

theorem Closed.snoc {queued' : List PoolRequest} (closed : Closed log queued before after)
    (e : PoolEvent n) (drained : ∀ task ∈ queued', task = exitTask)
    (taken : ∀ w task, e = .taken w task → task = exitTask)
    (added : ∀ t task, e = .added t task → t ≠ none ∧ task = exitTask) :
    Closed (log ++ [e]) queued' before (after ++ [e]) where
  split := by simp [closed.split]
  clients := closed.clients
  cleared := closed.cleared
  drained := drained
  taken v task mem := by
    rcases List.mem_append.mp mem with earlier | now
    · exact closed.taken v task earlier
    · exact taken v task (List.mem_singleton.mp now).symm
  added t task mem := by
    rcases List.mem_append.mp mem with earlier | now
    · exact closed.added t task earlier
    · exact added t task (List.mem_singleton.mp now).symm

theorem Opened.worker {log' : PoolLog n} {queued' : List PoolRequest} {stage : Stage n}
    (opened : Opened G log queued) (fewer : queued = [] → queued' = [])
    (adds : log'.flatMap PoolEvent.addedTasks ⊆ log.flatMap PoolEvent.addedTasks)
    (kept : ∀ tasks, .destroyed tasks ∈ log' → .destroyed tasks ∈ log)
    (works : ¬stage.Exits ∧ ¬stage.Left) : Opened (Function.update G (some w) stage) log' queued' where
  main := by
    rcases opened.main with main | made | ⟨main, empty⟩
    · exact .inl main
    · exact .inr (.inl made)
    · exact .inr (.inr ⟨main, fewer empty⟩)
  clients task mem := opened.clients task (adds mem)
  workers v := by
    by_cases self : some v = some w
    · rw [self, Function.update_self]
      exact works
    · rw [Function.update_of_ne self]
      exact opened.workers v
  kept tasks mem := opened.kept tasks (kept tasks mem)

theorem Token.keep {stage : Stage n} (token : Token G queued)
    (same : stage.Exits ↔ (G (some w)).Exits) : Token (Function.update G (some w) stage) queued := by
  have exits (v : Fin n) : (Function.update G (some w) stage (some v)).Exits ↔ (G (some v)).Exits := by
    by_cases self : some v = some w
    · rw [self, Function.update_self, same]
    · rw [Function.update_of_ne self]
  cases token with
  | queued none => exact .queued fun v holds => none v ((exits v).mp holds)
  | held u holds only => exact .held u ((exits u).mpr holds) fun v holds' => only v ((exits v).mp holds')

theorem Token.main (token : Token G queued) (stage : Stage n) :
    Token (Function.update G none stage) queued := by
  cases token with
  | queued none => exact .queued none
  | held w holds only => exact .held w holds only

theorem Token.take (token : Token G (task :: queued)) :
    task = exitTask ∧ Token (Function.update G (some w) (.taken task)) queued := by
  cases token with
  | queued none =>
      refine ⟨rfl, .held w ?_ fun v holds => ?_⟩
      · rw [Function.update_self]
        rfl
      · by_contra other
        rw [Function.update_of_ne (by simpa using other)] at holds
        exact none v holds

theorem Token.putBack (token : Token G queued) (exits : (G (some w)).Exits) :
    Token (Function.update G (some w) .putBack) (queued ++ [exitTask]) := by
  cases token with
  | queued none => exact absurd exits (none w)
  | held u holds only =>
      refine .queued fun v holds' => ?_
      by_cases self : v = w
      · rw [self, Function.update_self] at holds'
        exact holds'
      · rw [Function.update_of_ne (by simpa using self)] at holds'
        exact self ((only v holds').trans (only w exits).symm)

namespace WorkAt

theorem take (at_ : WorkAt G work (task :: queued) place) (idle : (G (some w)).work = none)
    (isTask : IsTask task) :
    ∃ place', WorkAt (Function.update G (some w) (.taken task)) work queued place' := by
  obtain ⟨allocated, waiting, once, held⟩ := at_
  rcases isTask with ⟨a, rfl⟩ | rfl
  · have here : place a = some .queued := (waiting a).mp List.mem_cons_self
    have single := once a
    rw [List.count_cons_self] at single
    have notLater : clientTask a ∉ queued := List.count_eq_zero.mp (by omega)
    have serves : (Stage.taken (n := n) (clientTask a)).work = some a := rfl
    refine ⟨Function.update place a (some (.thread (some w))), ?_, ?_, ?_, ?_⟩
    · grind [Function.update_apply]
    · grind [Function.update_apply, clientTask_inj]
    · grind [Function.update_apply]
    · grind [Function.update_apply]
  · have nothing : (Stage.taken (n := n) exitTask).work = none := rfl
    refine ⟨place, allocated, ?_, ?_, ?_⟩
    · grind [clientTask_ne_exitTask]
    · grind [clientTask_ne_exitTask]
    · grind [Function.update_apply]

theorem keep {stage : Stage n} (at_ : WorkAt G work queued place)
    (same : stage.work = (G t).work) : WorkAt (Function.update G t stage) work queued place where
  allocated := at_.allocated
  waiting := at_.waiting
  once := at_.once
  held u a := by
    rw [← at_.held]
    by_cases self : u = t
    · rw [self, Function.update_self, same]
    · rw [Function.update_of_ne self]

theorem addExit (at_ : WorkAt G work queued place) : WorkAt G work (queued ++ [exitTask]) place where
  allocated := at_.allocated
  waiting a := by
    rw [← at_.waiting, List.mem_append, List.mem_singleton]
    simp
  once a := by
    rw [List.count_append, List.count_eq_zero.mpr (by simp : clientTask a ∉ [exitTask])]
    exact at_.once a
  held := at_.held

theorem addClient {a : Nat} {stage : Stage n} (at_ : WorkAt G work queued place)
    (made : (G t).work = some a) (free : stage.work = none) :
    ∃ place', WorkAt (Function.update G t stage) work (queued ++ [clientTask a]) place' := by
  obtain ⟨allocated, waiting, once, held⟩ := at_
  have here := (held t a).mp made
  have fresh : queued.count (clientTask a) = 0 := by
    rw [List.count_eq_zero, waiting, here]
    nofun
  refine ⟨Function.update place a (some .queued), ?_, ?_, ?_, ?_⟩
  · grind [Function.update_apply]
  · grind [Function.update_apply, clientTask_inj]
  · grind [clientTask_inj]
  · grind [Function.update_apply]

theorem make {a : Nat} (at_ : WorkAt G work queued place) (free : (G t).work = none)
    (fresh : a ∉ work) :
    ∃ place', WorkAt (Function.update G t (.made a)) (insert a work) queued place' := by
  obtain ⟨allocated, waiting, once, held⟩ := at_
  have holds : (Stage.made (n := n) a).work = some a := rfl
  refine ⟨Function.update place a (some (.thread t)), ?_, ?_, once, ?_⟩
  · grind [Function.update_apply]
  · grind [Function.update_apply]
  · grind [Function.update_apply]

theorem free {a : Nat} {stage : Stage n} (at_ : WorkAt G work queued place)
    (holds : (G t).work = some a) (freed : stage.work = none) :
    ∃ place', WorkAt (Function.update G t stage) (work.erase a) queued place' := by
  obtain ⟨allocated, waiting, once, held⟩ := at_
  have here := (held t a).mp holds
  refine ⟨Function.update place a none, ?_, ?_, once, ?_⟩
  · grind [Function.update_apply]
  · grind [Function.update_apply]
  · grind [Function.update_apply]

theorem live (at_ : WorkAt G work queued place) {a : Nat} (mem : clientTask a ∈ queued) : a ∈ work := by
  rw [at_.allocated, (at_.waiting a).mp mem]
  nofun

theorem clear {args : List Nat} (at_ : WorkAt G work (args.map clientTask) place) :
    ∃ place', WorkAt G (work \ args.toFinset) [] place' := by
  obtain ⟨allocated, waiting, -, held⟩ := at_
  have waits (a : Nat) : a ∈ args ↔ place a = some .queued := by
    rw [← waiting]
    simp
  refine ⟨fun a => if a ∈ args then none else place a, ?_, ?_, ?_, ?_⟩
  · grind [List.mem_toFinset]
  · grind
  · simp
  · grind

theorem nodup {args : List Nat} (at_ : WorkAt G work (args.map clientTask) place) : args.Nodup := by
  rw [List.nodup_iff_count_le_one]
  intro a
  have once := at_.once a
  rwa [List.count_map_of_injective args clientTask fun _ _ same => clientTask_inj.mp same] at once

end WorkAt

end

end FileServer
