import FileServer.Proof.Concurrent.Standing
import FileServer.Proof.Concurrent.Hearing

/-!
# The end of the main loop after `SIGHUP`

The maximum that `FdSetUpdate` computes is the largest descriptor that `main` or a worker has, so that
the loop is left exactly when no client is there any more.
-/

namespace FileServer
open Program

section
variable {W : Type} {own : OwnFds}

def Fair (own : OwnFds) (s : System LoopOp LoopOp.Resp (Option W) Loop) (t : Option W) : Prop :=
  Intact s t ∧ AcceptsAbove own s t

/-- After `FdSetUpdate` the maximum is the largest descriptor of both sets. The clients are in one or the
other, and the loop is left when there is none; after `SIGHUP` no other is accepted. -/
structure Graceful (own : OwnFds) (admissible : System LoopOp LoopOp.Resp (Option W) Loop → Option W → Prop)
    [DecidableEq W] (s : System LoopOp LoopOp.Resp (Option W) Loop) : Prop where
  largest : ∀ next, s.threads none = .op .testBreak next →
    s.state.max ∈ s.state.set ∪ s.state.workSet ∧ ∀ fd ∈ s.state.set ∪ s.state.workSet, fd ≤ s.state.max
  clients : ∀ fd, fd ∈ s.state.accepted ↔ fd ∉ own.all ∧ fd ∈ s.state.set ∪ s.state.workSet
  breaks : ∀ next s', s.threads none = .op .testBreak next →
    Loop.exec own .testBreak s.state = .ok ((), s') →
    (s'.running = false ↔ s.state.signal = SIGHUP ∧ s.state.accepted = ∅)
  cleared : s.state.running = false → s.state.queue = []
  refuses : s.state.signal = SIGHUP → ∀ fd next, s.threads none ≠ .op (.accept fd) next
  closed : ∀ s', Relation.ReflTransGen ((loopMachine W own).Step (LoopStarts own) admissible) s s' →
    s.state.signal = SIGHUP → s'.state.signal = SIGHUP ∧ s'.state.accepted ⊆ s.state.accepted

theorem standing_initial : Standing (W := W) own .idle (fun _ => .idle) (Loop.initial own)
    (fun _ => none) [] where
  ofMain := trivial
  ofWorker _ := trivial
  todoNodup := List.nodup_nil
  todo := nofun
  places := accounts_initial.places
  history := rfl
  ownSet := subset_rfl
  above := nofun
  bound fd mem := by
    rw [Loop.initial, Finset.union_empty] at mem
    exact Finset.le_sup (f := id) mem
  updated := nofun
  signal := nofun
  stopped := nofun

variable [DecidableEq W]

theorem preserved_standing : Machine.Preserved (loopMachine W own) (LoopStarts own) (Fair own)
    (Loop.initial own) (loopDiscipline own) (fun duty => duty = .idle)
    fun G s => ∃ place flight, Standing own (G none) (fun w => G (some w)) s.state place flight where
  init := ⟨fun _ => .idle, ⟨_, _, standing_initial⟩, fun _ => rfl⟩
  start := by
    rintro G s t p ⟨place, flight, standing⟩ - done starts
    cases starts with
    | main fresh heard ready =>
        refine ⟨.atSelect, ⟨place, flight, ?_⟩, wp_mainIteration fresh heard ready⟩
        rw [Function.update_self, update_main]
        exact { standing with
          ofMain := trivial, todoNodup := List.nodup_nil, todo := nofun
          updated := nofun, signal := nofun
          stopped := fun stopped => ⟨(standing.stopped stopped).1, .inr rfl⟩ }
    | worker w hangsUp =>
        refine ⟨.atQueue, ⟨place, flight, ?_⟩, wp_poolWorker hangsUp⟩
        rw [Function.update_of_ne (Option.some_ne_none w).symm, update_worker]
        exact standing.serve trivial (by rw [done]; rfl)
  exec := by
    rintro G s t o next x state ⟨place, flight, standing⟩ - action ⟨intact, above⟩ allowed step
    refine ⟨_, rfl, ?_⟩
    cases t with
    | none =>
        obtain ⟨place', flight', standing'⟩ := by
          refine standing.main_step allowed ?_ ?_ step
          · rintro fdOpen fd rest rfl
            exact intact fdOpen fd rest next action
          · rintro fd rfl
            exact above fd next action
        refine ⟨place', flight', ?_⟩
        rw [Function.update_self, update_main]
        exact standing'
    | some w =>
        obtain ⟨place', flight', standing'⟩ := standing.worker_step (w := w) allowed step
        refine ⟨place', flight', ?_⟩
        rw [Function.update_of_ne (Option.some_ne_none w).symm, update_worker]
        exact standing'

theorem exec_accepted {o : LoopOp} {x : o.Resp} {s s' : Loop} (step : Loop.exec own o s = .ok (x, s'))
    (other : ∀ fd, o ≠ .accept fd) : s'.accepted ⊆ s.accepted := by
  cases o with
  | accept fd => exact absurd rfl (other fd)
  | select | readSignal =>
      simp only [Loop.exec] at step
      split at step <;> cases step
      exact subset_rfl
  | readOpen | readFd | queueTakeHead =>
      simp only [Loop.exec] at step
      split at step
      · grind
      · grind
  | _ =>
      cases step
      exact subset_rfl

theorem updating_of_wp {p : LoopProgram Unit} {duty : Duty} {next : Unit → LoopProgram Unit}
    (keeps : wp (loopDiscipline own) p (fun _ duty => duty = .idle) duty)
    (action : p = .op .testBreak next) : duty = .updating := by
  rw [action] at keeps
  have allowed := keeps.1
  cases duty with
  | updating => rfl
  | scanning todo => cases todo <;> cases allowed
  | _ => cases allowed

theorem quiet {s : System LoopOp LoopOp.Resp (Option W) Loop}
    (reachable : (loopMachine W own).Reachable (LoopStarts own) (Fair own) (Loop.initial own) s)
    (signal : s.state.signal = SIGHUP) {t : Option W} {o : LoopOp} {next : o.Resp → LoopProgram Unit}
    (action : s.threads t = .op o next) : (∀ fd, o ≠ .accept fd) ∧ ∀ heard, o ≠ .readSignal heard := by
  constructor
  · rintro fd rfl
    obtain ⟨H, ⟨⟨last, main, heard⟩, workers⟩, hears⟩ := (preserved_heard (Fair own)).reachable reachable
    have allowed := hears t
    rw [action] at allowed
    cases t with
    | none =>
        rw [main] at allowed
        obtain ⟨n, same, noHup⟩ := allowed.1
        exact noHup ((heard n same).symm.trans signal)
    | some w =>
        rw [workers w] at allowed
        exact allowed.1
  · rintro heard rfl
    obtain ⟨G, ⟨place, flight, standing⟩, keeps⟩ := preserved_standing.reachable reachable
    have allowed := keeps t
    rw [action] at allowed
    cases t with
    | none =>
        have unread := standing.signal
        generalize G none = duty at allowed unread
        cases duty with
        | scanning todo =>
            cases todo with
            | nil => cases allowed.1
            | cons i todo =>
                have zero := unread (List.mem_cons.mpr (.inl (Eq.symm allowed.1)))
                rw [signal] at zero
                cases zero
        | _ => cases allowed.1
    | some w =>
        have ofWorker := standing.ofWorker w
        generalize G (some w) = duty at allowed ofWorker
        cases duty with
        | scanning todo => cases ofWorker
        | _ => cases allowed.1

theorem stays_closed {s s' : System LoopOp LoopOp.Resp (Option W) Loop}
    (reachable : (loopMachine W own).Reachable (LoopStarts own) (Fair own) (Loop.initial own) s)
    (signal : s.state.signal = SIGHUP) (step : (loopMachine W own).Step (LoopStarts own) (Fair own) s s') :
    s'.state.signal = SIGHUP ∧ s'.state.accepted ⊆ s.state.accepted := by
  cases step with
  | start idle starts => exact ⟨signal, subset_rfl⟩
  | exec action allowed step =>
      obtain ⟨noAccept, noSignal⟩ := quiet reachable signal action
      exact ⟨(exec_signal step noSignal).trans signal, exec_accepted step noAccept⟩

/-- If the pairs reach `main` intact and `accept` returns descriptors above its own ones, every run shuts
down gracefully. -/
theorem sighup_shutdown {s : System LoopOp LoopOp.Resp (Option W) Loop}
    (reachable : (loopMachine W own).Reachable (LoopStarts own) (Fair own) (Loop.initial own) s) :
    Graceful own (Fair own) s := by
  obtain ⟨G, ⟨place, flight, standing⟩, keeps⟩ := preserved_standing.reachable reachable
  constructor
  case largest =>
    intro next action
    have largest := standing.updated (updating_of_wp (keeps none) action)
    have nonempty : (s.state.set ∪ s.state.workSet).Nonempty :=
      ⟨own.pipefd, Finset.mem_union_left _ (standing.ownSet (by simp [OwnFds.all]))⟩
    obtain ⟨fd, mem, same⟩ := Finset.exists_mem_eq_sup _ nonempty id
    rw [largest, same]
    refine ⟨mem, fun fd' mem' => ?_⟩
    rw [← same]
    exact Finset.le_sup (f := id) mem'
  case clients =>
    intro fd
    constructor
    · intro isOpen
      exact ⟨standing.notOwn isOpen, (standing.places.mem_sets (standing.notOwn isOpen)).mpr isOpen⟩
    · rintro ⟨notOwn, mem⟩
      exact (standing.places.mem_sets notOwn).mp mem
  case breaks =>
    intro next s' action step
    have largest := standing.updated (updating_of_wp (keeps none) action)
    cases step
    rw [← standing.sup_eq_iff, ← largest]
    simp
  case cleared => exact fun stopped => standing.queue_eq_nil (standing.stopped stopped).1
  case refuses => exact fun signal fd next action => (quiet reachable signal action).1 fd rfl
  case closed =>
    intro s' steps signal
    suffices later : (loopMachine W own).Reachable (LoopStarts own) (Fair own) (Loop.initial own) s' ∧
        s'.state.signal = SIGHUP ∧ s'.state.accepted ⊆ s.state.accepted from later.2
    induction steps with
    | refl => exact ⟨reachable, signal, subset_rfl⟩
    | tail _ step ih =>
        obtain ⟨reachable', signal', fewer⟩ := ih
        obtain ⟨signal'', fewer'⟩ := stays_closed reachable' signal' step
        exact ⟨reachable'.step step, signal'', fewer'.trans fewer⟩

end

/-! ## A client hangs up after `SIGHUP` -/

def hangUpMoves : List LoopMove :=
  [.start none (mainIteration exampleFds 8 0 [7])] ++ List.replicate 5 (.exec none) ++
  [.start none (mainIteration exampleFds 0 SIGHUP [5, 8])] ++ List.replicate 6 (.exec none) ++
  [.start (some true) (poolWorker fun _ => true)] ++ List.replicate 4 (.exec (some true)) ++
  [.start none (mainIteration exampleFds 9 0 [3, 7])] ++ List.replicate 7 (.exec none)

theorem hangUpMoves_start : ∀ m ∈ hangUpMoves, m.startsFrom (LoopStarts exampleFds) := by
  simp [hangUpMoves, or_imp, forall_and, Machine.Move.startsFrom, LoopStarts.main, LoopStarts.worker]

def fairTest (s : System LoopOp LoopOp.Resp (Option Bool) Loop) (t : Option Bool) : Bool :=
  match (s.threads t).next?, s.state.pipe with
  | some (.readFd fdOpen), fd :: _ => decide (s.state.decoded ++ [(fdOpen, fd)] <+: s.state.sent)
  | some (.accept fd), _ => decide (exampleFds.all.sup id < fd)
  | _, _ => true

theorem fair_of_test (s : System LoopOp LoopOp.Resp (Option Bool) Loop) (t : Option Bool)
    (passes : fairTest s t = true) : Fair exampleFds s t := by
  constructor
  · intro fdOpen fd rest next action head
    simpa [fairTest, action, head, Program.next?] using passes
  · intro fd next action
    simpa [fairTest, action, Program.next?] using passes

theorem sighup_shutdown_example : ∃ s : System LoopOp LoopOp.Resp (Option Bool) Loop,
    s.state.signal = SIGHUP ∧ s.state.running = false ∧ s.state.decoded = [(0, 8)] ∧
    Graceful exampleFds (Fair exampleFds) s := by
  have run : ∃ s, (loopMachine Bool exampleFds).Reachable (LoopStarts exampleFds) (Fair exampleFds)
      (Loop.initial exampleFds) s ∧
      (s.state.signal = SIGHUP && s.state.running = false && s.state.decoded = [(0, 8)]) = true :=
    Machine.Reachable.of_schedule fairTest fair_of_test hangUpMoves_start (by decide +kernel)
  obtain ⟨s, reachable, final⟩ := run
  simp only [Bool.and_eq_true, decide_eq_true_eq] at final
  exact ⟨s, final.1.1, final.1.2, final.2, sighup_shutdown reachable⟩

end FileServer
