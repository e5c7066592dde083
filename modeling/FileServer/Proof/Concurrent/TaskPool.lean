import FileServer.Proof.Concurrent.TaskAccounts

/-!
# Every task is delivered once

What the log of the pool says about its tasks, for any number of workers and any order of their steps,
and the one exit task that goes from worker to worker when `main` shuts the pool down.
-/

namespace FileServer
open Program
variable {n : Nat}

/-! ## Steps -/

section
variable {G : PoolThread n → Stage n} {s : PoolState n} {queued : List PoolRequest}
  {task : PoolRequest} {place : Nat → Option (ArgsPlace n)} {work : Finset Nat} {w : Fin n}
  {t : PoolThread n} {log before after : PoolLog n} {pool : ThreadPool}

namespace Accounted

theorem queues_of_running (accounted : Accounted G s queued) (running : G (some w) ≠ .gone) :
    s.pool.Queues queued := by
  cases accounted.phase with
  | opened queues => exact queues
  | closing queues => exact queues
  | ended main all => exact absurd (all w) running

def Steps (G : PoolThread n → Stage n) (s : PoolState n) (t : PoolThread n) (o : PoolOp n) : Prop :=
  PoolState.perform t o s = .blocked ∨ ∃ x s' queued', PoolState.perform t o s = .ok (x, s') ∧
    Answer (G t) o x ∧ Accounted (Function.update G t ((G t).after o x)) s' queued'

theorem adds {new : Nat} {func : Option ThreadFunc} {args : Option TaskArgs}
    (queues : s.pool.Queues queued) (answer : Answer (G t) (.threadPoolAdd new func args) ())
    (kept : ∀ pool : ThreadPool, pool.Queues (queued ++ [⟨func, args⟩]) →
      Accounted (Function.update G t ((G t).after (.threadPoolAdd new func args) ()))
        ({ s with pool := pool }.record (.added t ⟨func, args⟩)) (queued ++ [⟨func, args⟩])) :
    Steps G s t (.threadPoolAdd new func args) := by
  by_cases fresh : new ∈ s.pool.allocated
  · apply Or.inl
    show (s.pool.queueAdd new func args).andThen _ = _
    unfold ThreadPool.queueAdd
    rw [if_pos fresh]
    rfl
  · obtain ⟨pool, added, queues'⟩ := ThreadPool.queueAdd_queues queues fresh func args
    refine .inr ⟨(), _, _, ?_, answer, kept pool queues'⟩
    show (s.pool.queueAdd new func args).andThen _ = _
    rw [added]
    rfl

theorem worker_takes (accounted : Accounted G s queued) (idle : G (some w) = .idle) :
    Steps G s (some w) .poolTakeTask := by
  have queues := accounted.queues_of_running (w := w) (by rw [idle]; nofun)
  unfold Steps
  rw [idle]
  cases queued with
  | nil =>
      have unchanged : Function.update G (some w) .idle = G := by
        rw [← idle, Function.update_eq_self]
      refine .inr ⟨⟨none, none⟩, s, [], ?_, .inr rfl, ?_⟩
      · show s.pool.queueTakeHead.andThen _ = _
        rw [ThreadPool.queueTakeHead_nil queues]
        rfl
      · show Accounted (Function.update G (some w) .idle) s []
        rw [unchanged]
        exact accounted
  | cons task rest =>
      obtain ⟨pool, taken, queues'⟩ := ThreadPool.queueTakeHead_cons queues
      have isTask := accounted.tasks task List.mem_cons_self
      have after : (Stage.idle (n := n)).after .poolTakeTask task = .taken task := by
        rcases isTask with ⟨a, rfl⟩ | rfl <;> rfl
      refine .inr ⟨task, { s with pool := pool }.record (.taken w task), rest, ?_, .inl isTask, ?_⟩
      · show s.pool.queueTakeHead.andThen _ = _
        rw [taken]
        rfl
      · rw [after]
        exact accounted.take idle queues'

theorem worker_step {o : PoolOp n} (accounted : Accounted G s queued) (notGone : G (some w) ≠ .gone)
    (allowed : (G (some w)).allows o) : Steps G s (some w) o := by
  have ofWorker := accounted.ofWorker w
  generalize doing : G (some w) = stage at ofWorker notGone allowed
  fun_cases Stage.allows stage o with
  | case1 => exact accounted.worker_takes doing
  | case2 task func args =>
      cases allowed
      refine .inr ⟨(), _, queued, rfl, ?_, ?_⟩
      · rw [doing]
        trivial
      · rw [doing]
        exact accounted.call doing
  | case3 task args =>
      obtain ⟨a, rfl, rfl⟩ := allowed
      obtain ⟨place, work⟩ := accounted.work
      have live : a ∈ s.work := by
        rw [work.allocated, (work.held (some w) a).mp (by rw [doing]; rfl)]
        nofun
      have freed : ThreadPool.freeArgs (.work a) s.work = .ok (s.work.erase a) := if_pos live
      refine .inr ⟨(), { s with work := s.work.erase a }, queued, ?_, ?_, ?_⟩
      · show (ThreadPool.freeArgs (.work a) s.work).andThen _ = _
        rw [freed]
        rfl
      · rw [doing]
        trivial
      · rw [doing]
        exact accounted.finish doing
  | case4 task new func args =>
      obtain ⟨rfl, same⟩ := allowed
      refine adds (accounted.queues_of_running (w := w) (by rw [doing]; nofun)) (by rw [doing]; trivial) ?_
      rw [doing, ← same]
      exact fun pool queues => accounted.giveBack doing queues
  | case5 =>
      refine .inr ⟨(), _, queued, rfl, ?_, ?_⟩
      · rw [doing]
        trivial
      · rw [doing]
        exact accounted.leave doing
  | case6 => cases allowed
  | case7 => exact absurd rfl notGone
  | case15 => exact absurd allowed (by simp_all [Stage.allows])
  | _ => cases ofWorker

theorem main_clears (accounted : Accounted G s queued) (main : G none = .dispatching) :
    Steps G s none .threadPoolClear := by
  obtain ⟨queues, opened⟩ := accounted.opened_of_main main (.inl rfl)
  obtain ⟨args, rfl⟩ : ∃ args : List Nat, queued = args.map clientTask := by
    apply clients_eq_map
    intro task mem
    apply opened.clients
    rw [accounted.order]
    exact List.mem_append_right _ mem
  obtain ⟨place, work⟩ := accounted.work
  obtain ⟨pool, cleared, empty⟩ := ThreadPool.threadPoolClear_queues queues work.nodup fun a mem =>
    work.live (List.mem_map_of_mem mem)
  refine .inr ⟨(), { s with pool := pool, work := s.work \ args.toFinset }.record
    (.cleared (args.map clientTask)), [], ?_, ?_, ?_⟩
  · show (s.pool.threadPoolClear s.work).andThen _ = _
    rw [cleared]
    rfl
  · rw [main]
    trivial
  · rw [main]
    exact accounted.clear main empty

theorem main_destroys (accounted : Accounted G s queued) (main : G none = .joining []) :
    Steps G s none .threadPoolDestroy := by
  obtain ⟨pool, destroyed, empty⟩ := ThreadPool.threadPoolDestroy_lists accounted.lists
  refine .inr ⟨(), { s with pool := pool }.record (.destroyed queued), [], ?_, ?_, ?_⟩
  · show s.pool.threadPoolDestroy.andThen _ = _
    rw [destroyed]
    rfl
  · rw [main]
    trivial
  · rw [main]
    exact accounted.destroy main empty

theorem main_step {o : PoolOp n} (accounted : Accounted G s queued) (notGone : G none ≠ .gone)
    (allowed : (G none).allows o) : Steps G s none o := by
  have ofMain := accounted.ofMain
  generalize doing : G none = stage at ofMain notGone allowed
  fun_cases Stage.allows stage o with
  | case6 => cases allowed
  | case7 => exact absurd rfl notGone
  | case8 args =>
      by_cases fresh : args ∈ s.work
      · exact .inl (if_pos fresh)
      · refine .inr ⟨(), _, queued, if_neg fresh, ?_, ?_⟩
        · rw [doing]
          trivial
        · rw [doing]
          exact accounted.make doing fresh
  | case9 a new func args =>
      cases allowed
      refine adds (accounted.opened_of_main doing (.inr (.inl ⟨a, rfl⟩))).1 (by rw [doing]; trivial) ?_
      rw [doing]
      exact fun pool queues => accounted.addClient doing queues
  | case10 => exact accounted.main_clears doing
  | case11 new func args =>
      cases allowed
      obtain ⟨queues, opened⟩ := accounted.opened_of_main doing (.inr (.inr rfl))
      have empty : queued = [] := by grind [opened.main]
      subst empty
      refine adds queues (by rw [doing]; trivial) ?_
      rw [doing]
      exact fun pool queues' => accounted.close doing queues'
  | case12 w left v =>
      cases allowed
      by_cases exited : .exited (some w) ∈ s.log
      · refine .inr ⟨(), s, queued, if_pos exited, ?_, ?_⟩
        · rw [doing]
          trivial
        · rw [doing]
          exact accounted.join doing exited
      · exact .inl (if_neg exited)
  | case13 => exact accounted.main_destroys doing
  | case14 =>
      refine .inr ⟨(), _, queued, rfl, ?_, ?_⟩
      · rw [doing]
        trivial
      · rw [doing]
        exact accounted.end_main doing
  | case15 => exact absurd allowed (by simp_all [Stage.allows])
  | _ => cases ofMain

theorem step {o : PoolOp n} (accounted : Accounted G s queued) (allowed : (G t).allows o) :
    s.exec t o = .blocked ∨ ∃ x s' queued', s.exec t o = .ok (x, s') ∧ Answer (G t) o x ∧
      Accounted (Function.update G t ((G t).after o x)) s' queued' := by
  unfold PoolState.exec
  by_cases ended : .exited t ∈ s.log
  · exact .inl (if_pos ended)
  · have notGone := (accounted.gone t).not.mp ended
    rw [if_neg ended]
    cases t with
    | none => exact accounted.main_step notGone allowed
    | some w => exact accounted.worker_step notGone allowed

end Accounted

end

/-! ## Runs -/

def firstStage : PoolThread n → Stage n
  | none => .dispatching
  | some _ => .idle

theorem accounted_initial (cells : Nat → QueueCell) :
    Accounted (n := n) firstStage (PoolState.initial n cells) [] where
  ofMain := trivial
  ofWorker _ := trivial
  tasks := nofun
  lists := ⟨[], ⟨rfl, rfl⟩, rfl⟩
  work := ⟨fun _ => none, by simp [PoolState.initial], by simp, by simp, by
    intro t a
    cases t <;> simp [firstStage, Stage.work]⟩
  order := rfl
  once _ := rfl
  gone t := by cases t <;> simp [PoolState.initial, firstStage]
  took _ := by simp [PoolState.initial, firstStage, Stage.Exits, Stage.Left]
  putBack _ := by simp [PoolState.initial, firstStage, Stage.Left]
  phase := .opened ⟨[], ⟨rfl, rfl⟩, rfl, rfl⟩ ⟨.inl rfl, nofun, fun _ => ⟨id, id⟩, nofun⟩

theorem wp_start {G : PoolThread n → Stage n} {s : PoolState n} {queued : List PoolRequest}
    {t : PoolThread n} {p : PoolProgram n Unit} (accounted : Accounted G s queued)
    (starts : PoolStarts n t p) (between : (G t).Between) :
    wp (poolDiscipline n) p (fun _ stage => stage.Between) (G t) := by
  cases starts with
  | main requests new =>
      have ofMain := accounted.ofMain
      cases main : G none with
      | dispatching => exact wp_pool_main requests new
      | gone =>
          apply wp_gone _ _ fun _ => trivial
          cases requests <;> nofun
      | _ => simp_all [Stage.Between, Stage.OfMain]
  | worker w new =>
      have ofWorker := accounted.ofWorker w
      cases worker : G (some w) with
      | idle => exact wp_pool_worker new
      | gone => exact wp_gone _ _ (fun _ => trivial) nofun
      | _ => simp_all [Stage.Between, Stage.OfWorker]

theorem preserved_accounted (cells : Nat → QueueCell) :
    Machine.Preserved (poolMachine n) (PoolStarts n) (fun _ _ => True) (PoolState.initial n cells)
      (poolDiscipline n) Stage.Between fun G s => ∃ queued, Accounted G s.state queued where
  init := by
    refine ⟨firstStage, ⟨[], accounted_initial cells⟩, fun t => ?_⟩
    cases t <;> trivial
  start := by
    rintro G s t p ⟨queued, accounted⟩ - between starts
    refine ⟨G t, ⟨queued, ?_⟩, wp_start accounted starts between⟩
    rw [Function.update_eq_self]
    exact accounted
  exec := by
    rintro G s t o next x state ⟨queued, accounted⟩ - - - allowed step
    have performed : s.state.exec t o = .ok (x, state) := step
    rcases accounted.step allowed with blocked | ⟨x', s', queued', ok, answer, accounted'⟩
    · cases performed.symm.trans blocked
    · cases performed.symm.trans ok
      exact ⟨_, ⟨answer, rfl⟩, queued', accounted'⟩

/-! ## Delivery and shutdown -/

def aboutToCall : PoolProgram n Unit → List PoolRequest
  | .op (.call func args) _ => [⟨some func, args⟩]
  | _ => []

/-- Tasks leave the queue in the order in which they came, and a worker calls each task that it takes
once, before it does anything else. -/
structure Delivered (s : System (PoolOp n) PoolOp.Resp (PoolThread n) (PoolState n))
    (queued : List PoolRequest) : Prop where
  order : s.state.log.flatMap PoolEvent.addedTasks =
    s.state.log.flatMap PoolEvent.removedTasks ++ queued
  once : ∀ w, s.state.log.flatMap (PoolEvent.takenBy w) =
    s.state.log.flatMap (PoolEvent.calledBy w) ++ aboutToCall (s.threads (some w))
  works : ∀ t o next, s.threads t = .op o next →
    s.state.exec t o = .blocked ∨ ∃ x s', s.state.exec t o = .ok (x, s')

def isClient (task : PoolRequest) : Bool := task.func = some .clientReadReq

/-- What holds once `main` has added the exit task, between `before` and `after`. -/
structure ShutDown (log : PoolLog n) (queued : List PoolRequest) (before after : PoolLog n) : Prop where
  cleared : before.flatMap PoolEvent.addedTasks = before.flatMap PoolEvent.removedTasks
  token : (∀ tasks, .destroyed tasks ∉ log) →
    queued.count exitTask + (Finset.univ.filter log.RunsExit).card = 1
  drained : ∀ task ∈ queued, task = exitTask
  added : ∀ t task, .added t task ∈ after → task = exitTask
  taken : ∀ w task, .taken w task ∈ after → task = exitTask
  called : ∀ w, (log.flatMap (PoolEvent.calledBy w)).filter isClient <+:
    before.flatMap (PoolEvent.takenBy w)
  exited : ∀ w, .exited (some w) ∈ log → ¬log.RunsExit w
  last : (∀ w, .exited (some w) ∈ log) → (∀ tasks, .destroyed tasks ∉ log) → queued = [exitTask]
  destroyed : ∀ tasks, .destroyed tasks ∈ log → tasks = [exitTask] ∧ ∀ w, .exited (some w) ∈ log

theorem pending_of_wp {p : PoolProgram n Unit} {stage : Stage n}
    (keeps : wp (poolDiscipline n) p (fun _ stage => stage.Between) stage) :
    aboutToCall p = stage.pending := by
  cases p with
  | ret u => cases stage <;> simp_all [aboutToCall, Stage.pending, Stage.Between]
  | op o next =>
      have allowed := keeps.1
      change stage.allows o at allowed
      fun_cases Stage.allows stage o <;>
        simp_all [aboutToCall, Stage.pending, Stage.allows]

section
variable {G : PoolThread n → Stage n} {s : PoolState n} {queued : List PoolRequest}
  {log before after : PoolLog n}

theorem Accounted.runsExit (accounted : Accounted G s queued) (w : Fin n) :
    PoolLog.RunsExit s.log w ↔ (G (some w)).Exits := by
  unfold PoolLog.RunsExit
  rw [accounted.took, accounted.putBack]
  cases G (some w) <;> simp [Stage.Exits, Stage.Left]

theorem Token.count (token : Token G queued) (runs : ∀ w, PoolLog.RunsExit log w ↔ (G (some w)).Exits) :
    queued.count exitTask + (Finset.univ.filter log.RunsExit).card = 1 := by
  cases token with
  | queued none =>
      have nobody : Finset.univ.filter log.RunsExit = ∅ := by
        apply Finset.filter_eq_empty_iff.mpr
        exact fun w _ holds => none w ((runs w).mp holds)
      rw [nobody]
      rfl
  | held w holds only =>
      have one : Finset.univ.filter log.RunsExit = {w} := by
        ext v
        simp only [Finset.mem_filter_univ, Finset.mem_singleton, runs]
        exact ⟨only v, fun same => same ▸ holds⟩
      rw [one]
      rfl

theorem takenBy_subset (log : PoolLog n) (w : Fin n) :
    log.flatMap (PoolEvent.takenBy w) ⊆ log.flatMap PoolEvent.removedTasks := by
  intro task mem
  obtain ⟨e, mem, takes⟩ := List.mem_flatMap.mp mem
  refine List.mem_flatMap.mpr ⟨e, mem, ?_⟩
  cases e with
  | taken v task' =>
      simp only [PoolEvent.takenBy] at takes
      split at takes
      · exact takes
      · cases takes
  | _ => cases takes

theorem mem_takenBy {w : Fin n} {task : PoolRequest} (mem : task ∈ log.flatMap (PoolEvent.takenBy w)) :
    .taken w task ∈ log := by
  obtain ⟨e, mem, takes⟩ := List.mem_flatMap.mp mem
  cases e with
  | taken v task' => grind [PoolEvent.takenBy]
  | _ => cases takes

namespace Closed

theorem unique {before' after' : PoolLog n} (closed : Closed log queued before after)
    (split : log = before' ++ .added none exitTask :: after') : before' = before ∧ after' = after := by
  have notBefore : .added none exitTask ∉ before := fun mem => by
    obtain ⟨a, client⟩ := closed.clients exitTask (List.mem_flatMap.mpr ⟨_, mem, List.mem_cons_self⟩)
    exact clientTask_ne_exitTask a client.symm
  have notAfter : .added none exitTask ∉ after := fun mem => (closed.added none _ mem).1 rfl
  have same := closed.split.symm.trans split
  rw [List.append_cons_inj_of_notMem notBefore notAfter] at same
  exact ⟨same.1.symm, same.2.2.symm⟩

theorem clients_taken (closed : Closed log queued before after) (w : Fin n) :
    (log.flatMap (PoolEvent.takenBy w)).filter isClient = before.flatMap (PoolEvent.takenBy w) := by
  have early : (before.flatMap (PoolEvent.takenBy w)).filter isClient =
      before.flatMap (PoolEvent.takenBy w) := by
    rw [List.filter_eq_self]
    intro task mem
    have added := takenBy_subset before w mem
    rw [← closed.cleared] at added
    obtain ⟨a, rfl⟩ := closed.clients task added
    rfl
  have late : (after.flatMap (PoolEvent.takenBy w)).filter isClient = [] := by
    rw [List.filter_eq_nil_iff]
    intro task mem
    rw [closed.taken w task (mem_takenBy mem)]
    decide
  rw [closed.split, List.flatMap_append, List.flatMap_cons, List.filter_append, early]
  show _ ++ (after.flatMap (PoolEvent.takenBy w)).filter isClient = _
  rw [late, List.append_nil]

end Closed

theorem Accounted.shutDown (accounted : Accounted G s queued)
    (split : s.log = before ++ .added none exitTask :: after) : ShutDown s.log queued before after := by
  have added : exitTask ∈ s.log.flatMap PoolEvent.addedTasks := by
    rw [split]
    exact List.mem_flatMap.mpr ⟨_, List.mem_append_right _ List.mem_cons_self, List.mem_cons_self⟩
  have closed : Closed s.log queued before after := by
    cases accounted.phase with
    | opened _ opened =>
        obtain ⟨a, client⟩ := opened.clients exitTask added
        cases client
    | closing _ _ _ _ _ closed | ended _ _ _ _ closed =>
        obtain ⟨rfl, rfl⟩ := closed.unique split
        exact closed
  have exited (w : Fin n) (gone : .exited (some w) ∈ s.log) : ¬PoolLog.RunsExit s.log w := by
    rw [accounted.runsExit, (accounted.gone _).mp gone]
    exact id
  have token (kept : ∀ tasks, .destroyed tasks ∉ s.log) :
      queued.count exitTask + (Finset.univ.filter (PoolLog.RunsExit s.log)).card = 1 := by
    cases accounted.phase with
    | opened _ opened =>
        obtain ⟨a, client⟩ := opened.clients exitTask added
        cases client
    | closing _ _ _ token => exact token.count accounted.runsExit
    | ended _ _ _ destroyed => exact absurd ((destroyed _).mpr rfl) (kept _)
  constructor
  case cleared => exact closed.cleared
  case token => exact token
  case drained => exact closed.drained
  case added => exact fun t task mem => (closed.added t task mem).2
  case taken => exact closed.taken
  case called =>
    intro w
    rw [← closed.clients_taken w, accounted.once w, List.filter_append]
    exact List.prefix_append ..
  case exited => exact exited
  case last =>
    intro all kept
    have nobody : Finset.univ.filter (PoolLog.RunsExit s.log) = ∅ :=
      Finset.filter_eq_empty_iff.mpr fun w _ => exited w (all w)
    have one := token kept
    rw [nobody, Finset.card_empty, Nat.add_zero] at one
    rw [List.eq_replicate_of_mem closed.drained, List.count_replicate_self] at one
    rw [List.eq_replicate_of_mem closed.drained, one]
    rfl
  case destroyed =>
    intro tasks mem
    cases accounted.phase with
    | opened _ opened => exact absurd mem (opened.kept tasks)
    | closing _ _ _ _ kept => exact absurd mem (kept tasks)
    | ended _ all _ destroyed =>
        exact ⟨(destroyed tasks).mp mem, fun w => (accounted.gone _).mpr (all w)⟩

end

/-- In every run of `n` workers and `main` the pool holds the tasks that are left, each of the others has
been delivered, and one exit task shuts the pool down. -/
theorem task_pool (n : Nat) (cells : Nat → QueueCell)
    {s : System (PoolOp n) PoolOp.Resp (PoolThread n) (PoolState n)}
    (reachable : (poolMachine n).Reachable (PoolStarts n) (fun _ _ => True) (PoolState.initial n cells) s) :
    ∃ queued, s.state.pool.Lists queued ∧ Delivered s queued ∧
      ∀ before after, s.state.log = before ++ .added none exitTask :: after →
        ShutDown s.state.log queued before after := by
  obtain ⟨G, ⟨queued, accounted⟩, keeps⟩ := (preserved_accounted cells).reachable reachable
  refine ⟨queued, accounted.lists, ⟨accounted.order, fun w => ?_, fun t o next action => ?_⟩,
    fun before after split => accounted.shutDown split⟩
  · rw [pending_of_wp (keeps (some w))]
    exact accounted.once w
  · have allowed := keeps t
    rw [action] at allowed
    rcases accounted.step allowed.1 with blocked | ⟨x, s', -, ok, -⟩
    · exact .inl blocked
    · exact .inr ⟨x, s', ok⟩

/-! ## A shutdown -/

abbrev PoolMove := Machine.Move (PoolOp 2) PoolOp.Resp (PoolThread 2)

/-- Worker 0 runs a client's task and then the exit task, while `main` waits for it. -/
def shutdownMoves : List PoolMove :=
  [.start none (PoolProgram.main [(1, 10), (2, 11)] 12)] ++ List.replicate 4 (.exec none) ++
  [.start (some 0) (PoolProgram.poolWorker 13)] ++ List.replicate 2 (.exec (some 0)) ++
  List.replicate 2 (.exec none) ++ [.exec (some 0)] ++
  [.start (some 0) (PoolProgram.poolWorker 13)] ++ List.replicate 4 (.exec (some 0)) ++ [.exec none]

def shutdownLog : PoolLog 2 :=
  [.added none (clientTask 1), .added none (clientTask 2), .taken 0 (clientTask 1),
    .called 0 (clientTask 1), .cleared [clientTask 2], .added none exitTask, .taken 0 exitTask,
    .called 0 exitTask, .added (some 0) exitTask, .exited (some 0)]

theorem shutdownMoves_start : ∀ m ∈ shutdownMoves, m.startsFrom (PoolStarts 2) := by
  simp [shutdownMoves, or_imp, forall_and, Machine.Move.startsFrom, PoolStarts.main, PoolStarts.worker]

theorem task_pool_example : ∃ s : System (PoolOp 2) PoolOp.Resp (PoolThread 2) (PoolState 2),
    s.state.log = shutdownLog ∧ ∃ queued, s.state.pool.Lists queued ∧ Delivered s queued ∧
      ShutDown s.state.log queued (shutdownLog.take 5) (shutdownLog.drop 6) := by
  have run : ∃ s, (poolMachine 2).Reachable (PoolStarts 2) (fun _ _ => True)
      (PoolState.initial 2 fun _ => ⟨none, none, none⟩) s ∧ decide (s.state.log = shutdownLog) = true :=
    Machine.Reachable.of_schedule (fun _ _ => true) (fun _ _ _ => trivial) shutdownMoves_start
      (by decide +kernel)
  obtain ⟨s, reachable, final⟩ := run
  have log := of_decide_eq_true final
  obtain ⟨queued, lists, delivered, shutDown⟩ := task_pool 2 _ reachable
  exact ⟨s, log, queued, lists, delivered, shutDown _ _ (by rw [log]; rfl)⟩

end FileServer
