import FileServer.Proof.Concurrent.TaskPlaces

/-!
# The accounts of the pool

What one thread does keeps the accounts of the tasks.
-/

namespace FileServer
open Program
variable {n : Nat}

section
variable {G : PoolThread n → Stage n} {s : PoolState n} {queued : List PoolRequest}
  {task : PoolRequest} {place : Nat → Option (ArgsPlace n)} {work : Finset Nat} {w : Fin n}
  {t : PoolThread n} {log before after : PoolLog n} {pool : ThreadPool}

namespace Accounted

theorem call (accounted : Accounted G s queued) (taken : G (some w) = .taken task) :
    Accounted (Function.update G (some w) (.called task)) (s.record (.called w task)) queued := by
  obtain ⟨ofMain, ofWorker, tasks, lists, ⟨place, work⟩, order, once, gone, took, putBack, phase⟩ :=
    accounted
  have isTask : IsTask task := by
    have := ofWorker w
    rwa [taken] at this
  constructor
  case ofMain => exact ofMain
  case ofWorker => grind [Function.update_apply, Stage.OfWorker]
  case tasks => exact tasks
  case lists => exact lists
  case work => exact ⟨place, work.keep (by rw [taken]; rfl)⟩
  case order => simpa [PoolEvent.addedTasks, PoolEvent.removedTasks] using order
  case once => grind [Function.update_apply, Stage.pending, PoolState.record_log, PoolEvent.calledBy, PoolEvent.takenBy]
  case gone => grind [Function.update_apply, PoolState.record_log]
  case took => grind [Function.update_apply, PoolState.record_log, Stage.Exits, Stage.Left]
  case putBack => grind [Function.update_apply, PoolState.record_log, Stage.Left]
  case phase =>
    cases phase with
    | opened queues opened =>
        have works := opened.workers w
        rw [taken] at works
        exact .opened queues (opened.worker id (by simp [PoolEvent.addedTasks]) (by simp) works)
    | closing queues main joined token kept closed =>
        refine .closing queues main ?_ (token.keep (by rw [taken]; rfl)) (by simpa using kept)
          (closed.snoc _ closed.drained nofun nofun)
        grind [Function.update_apply]
    | ended main all =>
        cases taken.symm.trans (all w)

theorem take (accounted : Accounted G s (task :: queued)) (idle : G (some w) = .idle)
    (queues : pool.Queues queued) :
    Accounted (Function.update G (some w) (.taken task))
      ({ s with pool := pool }.record (.taken w task)) queued := by
  obtain ⟨ofMain, ofWorker, tasks, -, ⟨place, work⟩, order, once, gone, took, putBack, phase⟩ :=
    accounted
  have isTask : IsTask task := tasks task List.mem_cons_self
  constructor
  case ofMain => exact ofMain
  case ofWorker => grind [Function.update_apply, Stage.OfWorker]
  case tasks => exact fun task' mem => tasks task' (List.mem_cons_of_mem task mem)
  case lists => exact queues.lists
  case work => exact work.take (by rw [idle]; rfl) isTask
  case order =>
    show List.flatMap _ (s.log ++ [.taken w task]) = List.flatMap _ (s.log ++ [.taken w task]) ++ _
    rw [List.flatMap_append, List.flatMap_append, order]
    simp [PoolEvent.addedTasks, PoolEvent.removedTasks]
  case once =>
    grind [Function.update_apply, Stage.pending, PoolState.record_log, PoolEvent.calledBy,
      PoolEvent.takenBy]
  case gone => grind [Function.update_apply, PoolState.record_log]
  case took => grind [Function.update_apply, PoolState.record_log, Stage.Exits, Stage.Left]
  case putBack => grind [Function.update_apply, PoolState.record_log, Stage.Left]
  case phase =>
    cases phase with
    | opened _ opened =>
        obtain ⟨a, client⟩ : ∃ a, task = clientTask a := by
          apply opened.clients
          rw [order]
          simp
        refine .opened queues (opened.worker nofun (by simp [PoolEvent.addedTasks]) (by simp) ⟨?_, id⟩)
        rw [client]
        exact clientTask_ne_exitTask a
    | closing _ main joined token kept closed =>
        obtain ⟨exits, token'⟩ := token.take (w := w)
        refine .closing queues main ?_ token' (by simpa using kept) (closed.snoc _ ?_ ?_ nofun)
        · grind [Function.update_apply]
        · exact fun task' mem => closed.drained task' (List.mem_cons_of_mem task mem)
        · intro v task' same
          cases same
          exact exits
    | ended main all =>
        cases idle.symm.trans (all w)

theorem finish {a : Nat} (accounted : Accounted G s queued)
    (called : G (some w) = .called (clientTask a)) :
    Accounted (Function.update G (some w) .idle) { s with work := s.work.erase a } queued := by
  obtain ⟨ofMain, ofWorker, tasks, lists, ⟨place, work⟩, order, once, gone, took, putBack, phase⟩ :=
    accounted
  have noExit : ¬(G (some w)).Exits := by
    rw [called]
    exact clientTask_ne_exitTask a
  constructor
  case ofMain => exact ofMain
  case ofWorker => grind [Function.update_apply, Stage.OfWorker]
  case tasks => exact tasks
  case lists => exact lists
  case work => exact work.free (by rw [called]; rfl) rfl
  case order => exact order
  case once => grind [Function.update_apply, Stage.pending]
  case gone => grind [Function.update_apply]
  case took => grind [Function.update_apply, Stage.Exits, Stage.Left]
  case putBack => grind [Function.update_apply, Stage.Left]
  case phase =>
    cases phase with
    | opened queues opened =>
        exact .opened queues (opened.worker id (List.Subset.refl _) (fun _ => id) ⟨id, id⟩)
    | closing queues main joined token kept closed =>
        refine .closing queues main ?_ (token.keep (iff_of_false id noExit)) kept closed
        grind [Function.update_apply]
    | ended main all =>
        cases called.symm.trans (all w)

theorem giveBack (accounted : Accounted G s queued) (called : G (some w) = .called exitTask)
    (queues : pool.Queues (queued ++ [exitTask])) :
    Accounted (Function.update G (some w) .putBack)
      ({ s with pool := pool }.record (.added (some w) exitTask)) (queued ++ [exitTask]) := by
  obtain ⟨ofMain, ofWorker, tasks, -, ⟨place, work⟩, order, once, gone, took, putBack, phase⟩ :=
    accounted
  have exits : (G (some w)).Exits := by
    rw [called]
    rfl
  constructor
  case ofMain => exact ofMain
  case ofWorker => grind [Function.update_apply, Stage.OfWorker]
  case tasks => grind [IsTask]
  case lists => exact queues.lists
  case work => exact ⟨place, (work.keep (by rw [called]; rfl)).addExit⟩
  case order => simp [PoolEvent.addedTasks, PoolEvent.removedTasks, order]
  case once =>
    grind [Function.update_apply, Stage.pending, PoolState.record_log, PoolEvent.calledBy,
      PoolEvent.takenBy]
  case gone => grind [Function.update_apply, PoolState.record_log]
  case took => grind [Function.update_apply, PoolState.record_log, Stage.Exits, Stage.Left]
  case putBack => grind [Function.update_apply, PoolState.record_log, Stage.Left]
  case phase =>
    cases phase with
    | opened _ opened =>
        exact absurd exits (opened.workers w).1
    | closing _ main joined token kept closed =>
        refine .closing queues main ?_ (token.putBack exits) (by simpa using kept)
          (closed.snoc _ ?_ nofun ?_)
        · grind [Function.update_apply]
        · grind [closed.drained]
        · intro t task same
          cases same
          exact ⟨nofun, rfl⟩
    | ended main all =>
        cases called.symm.trans (all w)

theorem leave (accounted : Accounted G s queued) (putBack : G (some w) = .putBack) :
    Accounted (Function.update G (some w) .gone) (s.record (.exited (some w))) queued := by
  obtain ⟨ofMain, ofWorker, tasks, lists, ⟨place, work⟩, order, once, gone, took, back, phase⟩ :=
    accounted
  constructor
  case ofMain => exact ofMain
  case ofWorker => grind [Function.update_apply, Stage.OfWorker]
  case tasks => exact tasks
  case lists => exact lists
  case work => exact ⟨place, work.keep (by rw [putBack]; rfl)⟩
  case order => simpa [PoolEvent.addedTasks, PoolEvent.removedTasks] using order
  case once =>
    grind [Function.update_apply, Stage.pending, PoolState.record_log, PoolEvent.calledBy,
      PoolEvent.takenBy]
  case gone => grind [Function.update_apply, PoolState.record_log]
  case took => grind [Function.update_apply, PoolState.record_log, Stage.Exits, Stage.Left]
  case putBack => grind [Function.update_apply, PoolState.record_log, Stage.Left]
  case phase =>
    cases phase with
    | opened _ opened =>
        have works := (opened.workers w).2
        rw [putBack] at works
        exact absurd trivial works
    | closing queues main joined token kept closed =>
        refine .closing queues main ?_ (token.keep (by rw [putBack]; rfl)) (by simpa using kept)
          (closed.snoc _ closed.drained nofun nofun)
        grind [Function.update_apply]
    | ended main all =>
        cases putBack.symm.trans (all w)

theorem opened_of_main {stage : Stage n} (accounted : Accounted G s queued) (main : G none = stage)
    (early : stage = .dispatching ∨ (∃ a, stage = .made a) ∨ stage = .cleared) :
    s.pool.Queues queued ∧ Opened G s.log queued := by
  cases accounted.phase with
  | opened queues opened => exact ⟨queues, opened⟩
  | closing _ joins => grind
  | ended ends => grind

theorem make {a : Nat} (accounted : Accounted G s queued) (main : G none = .dispatching)
    (fresh : a ∉ s.work) :
    Accounted (Function.update G none (.made a)) { s with work := insert a s.work } queued := by
  obtain ⟨queues, opened⟩ := accounted.opened_of_main main (.inl rfl)
  obtain ⟨place, work⟩ := accounted.work
  exact { accounted with
    ofMain := by rw [Function.update_self]; trivial
    work := work.make (by rw [main]; rfl) fresh
    gone := by grind [Function.update_apply, accounted.gone]
    phase := .opened queues { opened with main := .inr (.inl ⟨a, Function.update_self ..⟩) } }

theorem addClient {a : Nat} (accounted : Accounted G s queued) (main : G none = .made a)
    (queues : pool.Queues (queued ++ [clientTask a])) :
    Accounted (Function.update G none .dispatching)
      ({ s with pool := pool }.record (.added none (clientTask a))) (queued ++ [clientTask a]) := by
  obtain ⟨-, opened⟩ := accounted.opened_of_main main (.inr (.inl ⟨a, rfl⟩))
  obtain ⟨place, work⟩ := accounted.work
  exact {
    ofMain := by rw [Function.update_self]; trivial
    ofWorker := accounted.ofWorker
    tasks := by grind [IsTask, accounted.tasks]
    lists := queues.lists
    work := work.addClient (by rw [main]; rfl) rfl
    order := by simp [PoolEvent.addedTasks, PoolEvent.removedTasks, accounted.order]
    once := by simpa [PoolEvent.takenBy, PoolEvent.calledBy] using accounted.once
    gone := by grind [Function.update_apply, PoolState.record_log, accounted.gone]
    took := by simpa using accounted.took
    putBack := by simpa using accounted.putBack
    phase := .opened queues {
      main := .inl (Function.update_self ..)
      clients := by grind [opened.clients, PoolState.record_log, PoolEvent.addedTasks]
      workers := opened.workers
      kept := by simpa using opened.kept } }

theorem clients_eq_map {tasks : List PoolRequest} (clients : ∀ task ∈ tasks, ∃ a, task = clientTask a) :
    ∃ args : List Nat, tasks = args.map clientTask := by
  induction tasks with
  | nil => exact ⟨[], rfl⟩
  | cons task tasks ih =>
      obtain ⟨a, rfl⟩ := clients task List.mem_cons_self
      obtain ⟨args, rfl⟩ := ih fun task mem => clients task (List.mem_cons_of_mem _ mem)
      exact ⟨a :: args, rfl⟩

theorem clear {args : List Nat} (accounted : Accounted G s (args.map clientTask))
    (main : G none = .dispatching) (queues : pool.Queues []) :
    Accounted (Function.update G none .cleared)
      ({ s with pool := pool, work := s.work \ args.toFinset }.record (.cleared (args.map clientTask)))
      [] := by
  obtain ⟨-, opened⟩ := accounted.opened_of_main main (.inl rfl)
  obtain ⟨place, work⟩ := accounted.work
  obtain ⟨place', work'⟩ := work.clear
  exact {
    ofMain := by rw [Function.update_self]; trivial
    ofWorker := accounted.ofWorker
    tasks := nofun
    lists := queues.lists
    work := ⟨place', work'.keep (by rw [main]; rfl)⟩
    order := by simp [PoolEvent.addedTasks, PoolEvent.removedTasks, accounted.order]
    once := by simpa [PoolEvent.takenBy, PoolEvent.calledBy] using accounted.once
    gone := by grind [Function.update_apply, PoolState.record_log, accounted.gone]
    took := by simpa using accounted.took
    putBack := by simpa using accounted.putBack
    phase := .opened queues {
      main := .inr (.inr ⟨Function.update_self .., rfl⟩)
      clients := by simpa [PoolEvent.addedTasks] using opened.clients
      workers := opened.workers
      kept := by simpa using opened.kept } }

theorem close (accounted : Accounted G s []) (main : G none = .cleared) (queues : pool.Queues [exitTask]) :
    Accounted (Function.update G none (.joining (List.finRange n)))
      ({ s with pool := pool }.record (.added none exitTask)) [exitTask] := by
  obtain ⟨-, opened⟩ := accounted.opened_of_main main (.inr (.inr rfl))
  obtain ⟨place, work⟩ := accounted.work
  have closed : Closed (s.log ++ [.added none exitTask]) [exitTask] s.log [] := {
    split := rfl
    clients := opened.clients
    cleared := by simpa using accounted.order
    drained := by simp
    taken := nofun
    added := nofun }
  exact {
    ofMain := by rw [Function.update_self]; trivial
    ofWorker := accounted.ofWorker
    tasks := by simp [IsTask]
    lists := queues.lists
    work := ⟨place, (work.keep (by rw [main]; rfl)).addExit⟩
    order := by simpa [PoolEvent.addedTasks, PoolEvent.removedTasks] using accounted.order
    once := by simpa [PoolEvent.takenBy, PoolEvent.calledBy] using accounted.once
    gone := by grind [Function.update_apply, PoolState.record_log, accounted.gone]
    took := by simpa using accounted.took
    putBack := by simpa using accounted.putBack
    phase := .closing queues (Function.update_self ..) (fun w => .inl (List.mem_finRange w))
      (.queued fun w => (opened.workers w).1) (by simpa using opened.kept) closed }

theorem join {left : List (Fin n)} (accounted : Accounted G s queued)
    (main : G none = .joining (w :: left)) (exited : .exited (some w) ∈ s.log) :
    Accounted (Function.update G none (.joining left)) s queued := by
  obtain ⟨place, work⟩ := accounted.work
  exact { accounted with
    ofMain := by rw [Function.update_self]; trivial
    work := ⟨place, work.keep (by rw [main]; rfl)⟩
    gone := by grind [Function.update_apply, accounted.gone]
    phase := by
      cases accounted.phase with
      | opened _ opened => grind [opened.main]
      | closing queues main' joined token kept closed =>
          cases main.symm.trans main'
          refine .closing queues (Function.update_self ..) (fun v => ?_) (token.main _) kept closed
          rcases joined v with waits | gone
          · rcases List.mem_cons.mp waits with rfl | later
            · exact .inr ((accounted.gone _).mp exited)
            · exact .inl later
          · exact .inr gone
      | ended ends => grind }

/-- When all workers are joined the exit task is back in the queue. -/
theorem last_exit (accounted : Accounted G s queued) (main : G none = .joining []) :
    queued = [exitTask] ∧ (∀ w, G (some w) = .gone) ∧ (∀ tasks, .destroyed tasks ∉ s.log) ∧
      ∃ before after, Closed s.log queued before after := by
  cases accounted.phase with
  | opened _ opened => grind [opened.main]
  | closing queues main' joined token kept closed =>
      cases main.symm.trans main'
      have all (w : Fin n) : G (some w) = .gone := (joined w).resolve_left List.not_mem_nil
      refine ⟨?_, all, kept, _, _, closed⟩
      cases token with
      | queued none => rfl
      | held w holds only =>
          rw [all w] at holds
          exact holds.elim
  | ended ends => grind

theorem destroy (accounted : Accounted G s queued) (main : G none = .joining [])
    (empty : pool.Lists []) :
    Accounted (Function.update G none .destroyed)
      ({ s with pool := pool }.record (.destroyed queued)) [] := by
  obtain ⟨rfl, all, kept, before, after, closed⟩ := accounted.last_exit main
  obtain ⟨place, work⟩ := accounted.work
  have work' : WorkAt G s.work [] place := {
    allocated := work.allocated
    waiting := by simpa using work.waiting
    once := by simp
    held := work.held }
  exact {
    ofMain := by rw [Function.update_self]; trivial
    ofWorker := accounted.ofWorker
    tasks := nofun
    lists := empty
    work := ⟨place, work'.keep (by rw [main]; rfl)⟩
    order := by simp [PoolEvent.addedTasks, PoolEvent.removedTasks, accounted.order]
    once := by simpa [PoolEvent.takenBy, PoolEvent.calledBy] using accounted.once
    gone := by grind [Function.update_apply, PoolState.record_log, accounted.gone]
    took := by simpa using accounted.took
    putBack := by simpa using accounted.putBack
    phase := .ended (.inl (Function.update_self ..)) all rfl (by simp [kept])
      (closed.snoc _ nofun nofun nofun) }

theorem end_main (accounted : Accounted G s queued) (main : G none = .destroyed) :
    Accounted (Function.update G none .gone) (s.record (.exited none)) queued := by
  obtain ⟨place, work⟩ := accounted.work
  exact { accounted with
    ofMain := by rw [Function.update_self]; trivial
    work := ⟨place, work.keep (by rw [main]; rfl)⟩
    order := by simpa [PoolEvent.addedTasks, PoolEvent.removedTasks] using accounted.order
    once := by simpa [PoolEvent.takenBy, PoolEvent.calledBy] using accounted.once
    gone := by grind [Function.update_apply, PoolState.record_log, accounted.gone]
    took := by simpa using accounted.took
    putBack := by simpa using accounted.putBack
    phase := by
      cases accounted.phase with
      | opened _ opened => grind [opened.main]
      | closing _ joins => grind
      | ended ends all empty destroyed closed =>
          exact .ended (.inr (Function.update_self ..)) all empty (by simpa using destroyed)
            (closed.snoc _ closed.drained nofun nofun) }

end Accounted

end

end FileServer
