import FileServer.Proof.Concurrent.LoopAccounts

/-!
# Client descriptors between `main` and the workers

Every open client descriptor is at one place, as long as no worker starts a message on the pipe while
another one is in the middle of its own.
-/

namespace FileServer
open Program

section
variable {W : Type} {own : OwnFds}

def LoopOp.client : LoopOp → Option Nat
  | .readCode fd _ | .serve fd | .writeOpen _ fd | .writeFd _ fd => some fd
  | _ => none

def Running (s : System LoopOp LoopOp.Resp (Option W) Loop) (w : W) (fd : Nat) : Prop :=
  ∃ o next, s.threads (some w) = .op o next ∧ o.client = some fd

def At (s : System LoopOp LoopOp.Resp (Option W) Loop) (fd : Nat) : Place W → Prop
  | .inSet => fd ∈ s.state.set
  | .queued => fd ∈ s.state.queue
  | .worker w => Running s w fd
  | .inFlight => fd ∈ (s.state.sent.drop s.state.decoded.length).map Prod.snd

/-- No worker has written the first int of a message and not yet the second. -/
def NoneHalfway (s : System LoopOp LoopOp.Resp (Option W) Loop) : Prop :=
  ∀ v a fd next, s.threads v ≠ .op (.writeFd a fd) next

/-- A worker begins a message only while no other one is in the middle of a message. -/
def OneAtATime (s : System LoopOp LoopOp.Resp (Option W) Loop) (t : Option W) : Prop :=
  ∀ a fd next, s.threads t = .op (.writeOpen a fd) next → NoneHalfway s

/-- `main` has read what the workers have written, as far as it has got, and every client descriptor
that is open is at one place. -/
structure HandedBack (s : System LoopOp LoopOp.Resp (Option W) Loop) : Prop where
  decoded : s.state.decoded <+: s.state.sent
  all : s.state.pipe = [] → s.state.decoded = s.state.sent
  place : ∀ fd ∈ s.state.accepted, ∃! p, At s fd p
  workSet : ∀ fd ∈ s.state.accepted, fd ∈ s.state.workSet ↔ fd ∉ s.state.set
  queueNodup : s.state.queue.Nodup
  flightNodup : ((s.state.sent.drop s.state.decoded.length).map Prod.snd).Nodup
  connected : s.state.connected ⊆ s.state.accepted

theorem accounts_initial : Accounts (W := W) own .idle (fun _ => .idle) (Loop.initial own)
    (fun _ => none) [] [] where
  ofMain := trivial
  ofWorker _ := trivial
  todoNodup := List.nodup_nil
  todo := nofun
  places := by
    refine ⟨fun fd => ?_, fun _ _ => rfl, fun fd notOwn => ?_, fun fd => ?_, fun fd => ?_,
      List.nodup_nil, fun _ _ => ?_, fun fd => ?_, List.nodup_nil⟩
    all_goals simp [Loop.initial, Duty.client]
    exact notOwn
  history := rfl
  pipe := rfl
  unfinished := .none nofun
  connected := subset_rfl
  hungUp := nofun

theorem allows_client {duty : Duty} {o : LoopOp} (allowed : duty.allows own o) :
    o.client = duty.client := by
  fun_cases Duty.allows own duty o <;> simp_all [Duty.allows, Duty.client, LoopOp.client]

theorem client_of_wp {p : LoopProgram Unit} {duty : Duty} (fd : Nat)
    (keeps : wp (loopDiscipline own) p (fun _ duty => duty = .idle) duty) :
    (∃ o next, p = .op o next ∧ o.client = some fd) ↔ duty.client = some fd := by
  cases p with
  | ret a =>
      cases keeps
      exact iff_of_false nofun nofun
  | op o next =>
      rw [← allows_client keeps.1]
      constructor
      · rintro ⟨o', next', same, serves⟩
        cases same
        exact serves
      · intro serves
        exact ⟨o, next, rfl, serves⟩

theorem halfway_of_wp {p : LoopProgram Unit} {a fd : Nat}
    (keeps : wp (loopDiscipline own) p (fun _ duty => duty = .idle) (.halfway a fd)) :
    ∃ next, p = .op (.writeFd a fd) next := by
  cases p with
  | ret u => cases keeps
  | op o next =>
      have allowed := keeps.1
      cases o with
      | writeFd fdOpen fd' =>
          obtain ⟨rfl, rfl⟩ := allowed
          exact ⟨next, rfl⟩
      | _ => cases allowed

variable [DecidableEq W]

theorem update_main (G : Option W → Duty) (duty : Duty) :
    (fun w => Function.update G none duty (some w)) = fun w => G (some w) := by
  funext w
  exact Function.update_of_ne (Option.some_ne_none w) ..

theorem update_worker (G : Option W → Duty) (w : W) (duty : Duty) :
    (fun v => Function.update G (some w) duty (some v)) =
      Function.update (fun v => G (some v)) w duty :=
  Function.update_comp_eq_of_injective G (Option.some_injective W) w duty

theorem preserved_accounts : Machine.Preserved (loopMachine W own) (LoopStarts own) OneAtATime
    (Loop.initial own) (loopDiscipline own) (fun duty => duty = .idle)
    fun G s => ∃ place flight rest,
      Accounts own (G none) (fun w => G (some w)) s.state place flight rest where
  init := ⟨fun _ => .idle, ⟨_, _, _, accounts_initial⟩, fun _ => rfl⟩
  start := by
    rintro G s t p ⟨place, flight, rest, accounts⟩ - done starts
    cases starts with
    | main fresh heard ready =>
        refine ⟨.atSelect, ⟨place, flight, rest, ?_⟩, wp_mainIteration fresh heard ready⟩
        rw [done] at accounts
        rw [Function.update_self, update_main]
        exact accounts.watch .atSelect trivial List.nodup_nil nofun rfl ..
    | worker w hangsUp =>
        refine ⟨.atQueue, ⟨place, flight, rest, ?_⟩, wp_poolWorker hangsUp⟩
        rw [Function.update_of_ne (Option.some_ne_none w).symm, update_worker]
        exact accounts.work .atQueue trivial (by rw [done]; rfl) (by rw [done]; nofun) nofun
          subset_rfl nofun
  exec := by
    rintro G s t o next x state ⟨place, flight, rest, accounts⟩ keeps action alone allowed step
    refine ⟨_, rfl, ?_⟩
    cases t with
    | none =>
        obtain ⟨place', flight', accounts'⟩ := accounts.main_step allowed step
        refine ⟨place', flight', rest, ?_⟩
        rw [Function.update_self, update_main]
        exact accounts'
    | some w =>
        obtain ⟨place', flight', rest', accounts'⟩ := by
          refine accounts.worker_step (w := w) allowed ?_ step
          rintro a fd rfl v b fd' half
          have keeps' := keeps (some v)
          rw [half] at keeps'
          obtain ⟨next', action'⟩ := halfway_of_wp keeps'
          exact alone a fd next action _ _ _ next' action'
        refine ⟨place', flight', rest', ?_⟩
        rw [Function.update_of_ne (Option.some_ne_none w).symm, update_worker]
        exact accounts'

theorem hand_back {s : System LoopOp LoopOp.Resp (Option W) Loop}
    (reachable : (loopMachine W own).Reachable (LoopStarts own) OneAtATime (Loop.initial own) s) :
    HandedBack s := by
  obtain ⟨G, ⟨place, flight, rest, accounts⟩, keeps⟩ := preserved_accounts.reachable reachable
  have places := accounts.places
  have flying : s.state.sent.drop s.state.decoded.length = flight := by
    rw [accounts.history, List.drop_left]
  have located (fd : Nat) (p : Place W) (isOpen : fd ∈ s.state.accepted) :
      At s fd p ↔ place fd = some p := by
    cases p with
    | inSet =>
        apply places.set
        intro isOwn
        exact (places.accepted fd).mp isOpen (places.foreign fd isOwn)
    | queued => exact places.queue fd
    | worker w => exact (client_of_wp fd (keeps (some w))).trans (places.worker w fd)
    | inFlight =>
        rw [← places.inFlight, ← flying]
        exact Iff.rfl
  refine ⟨⟨flight, accounts.history.symm⟩, fun empty => ?_, fun fd isOpen => ?_,
    fun fd isOpen => ?_, places.queueNodup, ?_, accounts.connected⟩
  · have pipe := accounts.pipe
    have nothing : flight = [] := by
      cases flight with
      | nil => rfl
      | cons message flight =>
          have count := congrArg List.length pipe
          rw [empty] at count
          cases main : G none <;> simp [main, Duty.firstRead, ints] at count
    rw [accounts.history, nothing, List.append_nil]
  · obtain ⟨p, here⟩ := Option.ne_none_iff_exists'.mp ((places.accepted fd).mp isOpen)
    refine ⟨p, (located fd p isOpen).mpr here, fun p' there => ?_⟩
    have there' := (located fd p' isOpen).mp there
    exact Option.some.inj (there'.symm.trans here)
  · have inSet := located fd .inSet isOpen
    change fd ∈ s.state.set ↔ _ at inSet
    rw [places.workSet, inSet, ← places.accepted]
    exact and_iff_right isOpen
  · rw [flying]
    exact places.flightNodup

end

/-! ## Two workers -/

def exampleFds : OwnFds := ⟨3, 7, 5, by decide, by decide, by decide⟩

abbrev LoopMove := Machine.Move LoopOp LoopOp.Resp (Option Bool)

def twoRequests : List LoopMove :=
  [.start none (mainIteration exampleFds 8 0 [7])] ++ List.replicate 5 (.exec none) ++
  [.start none (mainIteration exampleFds 9 0 [7])] ++ List.replicate 5 (.exec none) ++
  [.start none (mainIteration exampleFds 0 0 [8, 9])] ++ List.replicate 7 (.exec none) ++
  [.start (some true) (poolWorker fun _ => false)] ++ List.replicate 3 (.exec (some true)) ++
  [.start (some false) (poolWorker fun _ => false)] ++ List.replicate 3 (.exec (some false))

def readTwice : List LoopMove :=
  [.start none (mainIteration exampleFds 0 0 [3])] ++ List.replicate 6 (.exec none) ++
  [.start none (mainIteration exampleFds 0 0 [3])] ++ List.replicate 6 (.exec none)

/-- Both workers write their first int before either writes its second. -/
def interleaved : List LoopMove :=
  [.exec (some true), .exec (some false), .exec (some true), .exec (some false)]

def oneAfterTheOther : List LoopMove :=
  [.exec (some true), .exec (some true), .exec (some false), .exec (some false)]

theorem twoRequests_starts (moves : List LoopMove) (exec : ∀ m ∈ moves, ∃ t, m = .exec t) :
    ∀ m ∈ twoRequests ++ moves ++ readTwice, m.startsFrom (LoopStarts exampleFds) := by
  have each (m : LoopMove) (mem : m ∈ moves) : m.startsFrom (LoopStarts exampleFds) := by
    obtain ⟨t, rfl⟩ := exec m mem
    exact trivial
  simpa [twoRequests, readTwice, or_imp, forall_and, Machine.Move.startsFrom, LoopStarts.main,
    LoopStarts.worker] using each

def lost (s : System LoopOp LoopOp.Resp (Option Bool) Loop) : Bool :=
  s.state.sent = [(1, 8), (1, 9)] && s.state.decoded = [(1, 1), (8, 9)] &&
  8 ∈ s.state.accepted && 8 ∉ s.state.set && s.state.queue = [] &&
  (s.threads (some true)).next?.isNone && (s.threads (some false)).next?.isNone

/-- `main` decodes the pairs (1, 1) and (8, 9), and client 8 is nowhere any more. -/
theorem hand_back_lost : ∃ s : System LoopOp LoopOp.Resp (Option Bool) Loop,
    (loopMachine Bool exampleFds).Reachable (LoopStarts exampleFds) (fun _ _ => True)
      (Loop.initial exampleFds) s ∧
    s.state.sent = [(1, 8), (1, 9)] ∧ s.state.decoded = [(1, 1), (8, 9)] ∧
    8 ∈ s.state.accepted ∧ (∀ p, ¬At s 8 p) ∧ ¬HandedBack s := by
  have run : ∃ s, (loopMachine Bool exampleFds).Reachable (LoopStarts exampleFds)
      (fun _ _ => True) (Loop.initial exampleFds) s ∧ lost s = true :=
    Machine.Reachable.of_schedule (fun _ _ => true) (fun _ _ _ => trivial)
      (twoRequests_starts interleaved (by simp [interleaved])) (by decide +kernel)
  obtain ⟨s, reachable, final⟩ := run
  simp only [lost, Bool.and_eq_true, decide_eq_true_eq] at final
  obtain ⟨⟨⟨⟨⟨⟨sent, decoded⟩, isOpen⟩, notSet⟩, queue⟩, idle⟩, idle'⟩ := final
  have nowhere (p : Place Bool) : ¬At s 8 p := by
    cases p with
    | inSet => exact notSet
    | queued =>
        show 8 ∉ s.state.queue
        rw [queue]
        exact List.not_mem_nil
    | worker w =>
        rintro ⟨o, next, action, -⟩
        cases w <;> simp [action, Program.next?] at idle idle'
    | inFlight => simp [At, sent, decoded]
  refine ⟨s, reachable, sent, decoded, isOpen, nowhere, fun fine => ?_⟩
  obtain ⟨p, here, -⟩ := fine.place 8 isOpen
  exact nowhere p here

def isWriteFd : Option LoopOp → Bool
  | some (.writeFd _ _) => true
  | _ => false

def isWriteOpen : Option LoopOp → Bool
  | some (.writeOpen _ _) => true
  | _ => false

def oneAtATimeTest (s : System LoopOp LoopOp.Resp (Option Bool) Loop) (t : Option Bool) : Bool :=
  !isWriteOpen (s.threads t).next? ||
    decide (∀ v, isWriteFd (s.threads v).next? = false)

theorem oneAtATime_of_test (s : System LoopOp LoopOp.Resp (Option Bool) Loop) (t : Option Bool)
    (passes : oneAtATimeTest s t = true) : OneAtATime s t := by
  intro a fd next action v b fd' next' action'
  unfold oneAtATimeTest at passes
  rw [action, Bool.or_eq_true, decide_eq_true_eq] at passes
  rcases passes with wrong | others
  · cases wrong
  · have wrong := others v
    rw [action'] at wrong
    cases wrong

theorem hand_back_example : ∃ s : System LoopOp LoopOp.Resp (Option Bool) Loop,
    s.state.sent = [(1, 8), (1, 9)] ∧ s.state.decoded = [(1, 8), (1, 9)] ∧ HandedBack s := by
  have run : ∃ s, (loopMachine Bool exampleFds).Reachable (LoopStarts exampleFds)
      OneAtATime (Loop.initial exampleFds) s ∧
      (s.state.sent = [(1, 8), (1, 9)] && s.state.decoded = [(1, 8), (1, 9)]) = true :=
    Machine.Reachable.of_schedule oneAtATimeTest oneAtATime_of_test
      (twoRequests_starts oneAfterTheOther (by simp [oneAfterTheOther])) (by decide +kernel)
  obtain ⟨s, reachable, final⟩ := run
  simp only [Bool.and_eq_true, decide_eq_true_eq] at final
  exact ⟨s, final.1, final.2, hand_back reachable⟩

end FileServer
