import FileServer.Proof.Concurrent.Duties

/-!
# The accounts of the main loop

What `main` or a worker does keeps track of every client descriptor and of the messages on the pipe.
-/

namespace FileServer
open Program

def ints (messages : List (Nat × Nat)) : List Nat := messages.flatMap fun m => [m.1, m.2]

inductive Unfinished {W : Type} (workers : W → Duty) : List Nat → Prop where
  | none (complete : ∀ w a fd, workers w ≠ .halfway a fd) : Unfinished workers []
  | one {w a fd} (half : workers w = .halfway a fd)
      (only : ∀ v b fd', workers v = .halfway b fd' → v = w) : Unfinished workers [a]

/-- Every descriptor has its place, the messages `flight` are on their way, and `rest` is the beginning
of the next one. -/
structure Accounts {W : Type} (own : OwnFds) (main : Duty) (workers : W → Duty) (s : Loop)
    (place : Nat → Option (Place W)) (flight : List (Nat × Nat)) (rest : List Nat) : Prop where
  ofMain : main.OfMain
  ofWorker : ∀ w, (workers w).OfWorker
  todoNodup : main.todo.Nodup
  todo : ∀ i ∈ main.todo, i ∈ s.set
  places : Places own s (fun w => (workers w).client) (flight.map Prod.snd) place
  history : s.sent = s.decoded ++ flight
  pipe : main.firstRead ++ s.pipe = ints flight ++ rest
  unfinished : Unfinished workers rest
  connected : s.connected ⊆ s.accepted
  hungUp : ∀ fd ∈ s.connected, (0, fd) ∉ flight ∧
    ∀ w, workers w ≠ .answering 0 fd ∧ workers w ≠ .halfway 0 fd

section
variable {W : Type} {own : OwnFds} {main : Duty} {workers : W → Duty} {s s' : Loop}
  {place : Nat → Option (Place W)} {flight : List (Nat × Nat)} {rest : List Nat} {w : W}

theorem message_head {fdOpen fd : Nat} {pipe : List Nat} (unfinished : Unfinished workers rest)
    (same : fdOpen :: fd :: pipe = ints flight ++ rest) :
    ∃ flight', flight = (fdOpen, fd) :: flight' ∧ pipe = ints flight' ++ rest := by
  cases flight with
  | nil =>
      cases unfinished with
      | none => cases same
      | one half only => cases same
  | cons message flight' =>
      cases same
      exact ⟨flight', rfl, rfl⟩

namespace Accounts

theorem watch (accounts : Accounts own main workers s place flight rest) (main' : Duty)
    (ofMain : main'.OfMain) (nodup : main'.todo.Nodup) (todo : ∀ i ∈ main'.todo, i ∈ s.set)
    {pipe : List Nat} (same : main'.firstRead ++ pipe = main.firstRead ++ s.pipe)
    (max signal : Nat) (running : Bool) :
    Accounts own main' workers
      { s with pipe := pipe, max := max, signal := signal, running := running }
      place flight rest :=
  { accounts with
    ofMain := ofMain, todoNodup := nodup, todo := todo, places := { accounts.places with }
    pipe := same.trans accounts.pipe }

theorem accept {i fd max : Nat} {todo : List Nat}
    (accounts : Accounts own (.scanning (i :: todo)) workers s place flight rest)
    (fresh : fd ∉ s.accepted) (notOwn : fd ∉ own.all) :
    Accounts own (.scanning todo) workers { s with
      set := insert fd s.set, max := max
      accepted := insert fd s.accepted, connected := insert fd s.connected }
      (Function.update place fd (some .inSet)) flight rest := by
  have nowhere : place fd = none := by
    by_contra some
    exact fresh ((accounts.places.accepted fd).mpr some)
  have notFlying : fd ∉ flight.map Prod.snd := by
    rw [accounts.places.inFlight, nowhere]
    nofun
  have notServed (w : W) : (workers w).client ≠ some fd := by
    rw [ne_eq, accounts.places.worker, nowhere]
    nofun
  refine { accounts with
    ofMain := trivial, todoNodup := (List.nodup_cons.mp accounts.todoNodup).2
    todo := fun j mem => Finset.mem_insert_of_mem (accounts.todo j (List.mem_cons_of_mem i mem))
    places := accounts.places.accept fresh notOwn max _
    connected := Finset.insert_subset_insert fd accounts.connected
    hungUp := fun fd' mem => ?_ }
  rcases Finset.mem_insert.mp mem with rfl | before
  · refine ⟨fun wrong => notFlying (List.mem_map_of_mem wrong), fun w => ⟨?_, ?_⟩⟩
    · intro duty
      exact notServed w (by rw [duty]; rfl)
    · intro duty
      exact notServed w (by rw [duty]; rfl)
  · exact accounts.hungUp fd' before

theorem dispatch {fd : Nat} {todo : List Nat}
    (accounts : Accounts own (.scanning (fd :: todo)) workers s place flight rest)
    (notOwn : fd ∉ own.all) :
    Accounts own (.scanning todo) workers { s with
      queue := s.queue ++ [fd], set := s.set.erase fd, workSet := insert fd s.workSet }
      (Function.update place fd (some .queued)) flight rest := by
  obtain ⟨notLater, nodup⟩ := List.nodup_cons.mp accounts.todoNodup
  refine { accounts with
    ofMain := trivial, todoNodup := nodup
    todo := fun j mem => ?_
    places := accounts.places.dispatch (accounts.todo fd List.mem_cons_self) notOwn }
  apply Finset.mem_erase_of_ne_of_mem
  · rintro rfl
    exact notLater mem
  · exact accounts.todo j (List.mem_cons_of_mem fd mem)

theorem handBack {fdOpen fd : Nat} {todo pipe : List Nat}
    (accounts : Accounts own (.decoding fdOpen todo) workers s place flight rest)
    (head : s.pipe = fd :: pipe) (step : Loop.exec own (.readFd fdOpen) s = .ok ((), s')) :
    ∃ place' flight', Accounts own (.scanning todo) workers s' place' flight' rest := by
  have read := accounts.pipe
  rw [head] at read
  obtain ⟨flight', rfl, pipe'⟩ := message_head accounts.unfinished read
  obtain ⟨stays, leaves⟩ := accounts.places.handBack pipe (s.decoded ++ [(fdOpen, fd)])
  have history : s.sent = s.decoded ++ [(fdOpen, fd)] ++ flight' := by
    rw [accounts.history, List.append_assoc]
    rfl
  have hungUp (fd' : Nat) (mem : fd' ∈ s.connected) := accounts.hungUp fd' mem
  simp only [Loop.exec, head] at step
  by_cases isOpen : fdOpen ≠ 0
  · rw [if_pos isOpen] at step
    cases step
    refine ⟨_, flight', { accounts with
      ofMain := trivial, todoNodup := accounts.todoNodup
      todo := fun j mem => Finset.mem_insert_of_mem (accounts.todo j mem)
      places := stays, history := history, pipe := pipe', hungUp := fun fd' mem => ?_ }⟩
    obtain ⟨notFlying, notServed⟩ := hungUp fd' mem
    exact ⟨fun wrong => notFlying (List.mem_cons_of_mem _ wrong), notServed⟩
  · rw [if_neg isOpen] at step
    cases step
    refine ⟨_, flight', { accounts with
      ofMain := trivial, todoNodup := accounts.todoNodup, todo := accounts.todo
      places := leaves, history := history, pipe := pipe', connected := fun fd' mem => ?_
      hungUp := fun fd' mem => ?_ }⟩
    · -- a client that is still connected has not sent this message
      apply Finset.mem_erase_of_ne_of_mem
      · rintro rfl
        apply (hungUp fd' mem).1
        rw [not_not.mp isOpen]
        exact List.mem_cons_self
      · exact accounts.connected mem
    · obtain ⟨notFlying, notServed⟩ := hungUp fd' mem
      exact ⟨fun wrong => notFlying (List.mem_cons_of_mem _ wrong), notServed⟩

theorem main_step {o : LoopOp} {x : o.Resp}
    (accounts : Accounts own main workers s place flight rest) (allowed : main.allows own o)
    (step : Loop.exec own o s = .ok (x, s')) :
    ∃ place' flight', Accounts own (main.after own o x) workers s' place' flight' rest := by
  have ofMain := accounts.ofMain
  have nodup := accounts.todoNodup
  have todo := accounts.todo
  fun_cases Duty.allows own main o with
  | case1 ready =>
      simp only [Loop.exec] at step
      split at step
      · rename_i reports
        cases step
        obtain ⟨-, -, -, sorted, inside, -⟩ := reports
        exact ⟨place, flight, accounts.watch (.scanning ready) trivial sorted.nodup
          (fun i mem => (inside i mem).1) rfl ..⟩
      · cases step
  | case2 i ready signal =>
      simp only [Loop.exec] at step
      split at step
      · cases step
        exact ⟨place, flight, accounts.watch (.scanning ready) trivial (List.nodup_cons.mp nodup).2
          (fun j mem => todo j (List.mem_cons_of_mem i mem)) rfl ..⟩
      · cases step
  | case3 i ready =>
      cases step
      change ∃ place' flight', Accounts own (if i = own.listenSocket ∧ s.signal = SIGHUP then
        .scanning ready else .scanning (i :: ready)) workers s place' flight' rest
      split
      · exact ⟨place, flight, accounts.watch (.scanning ready) trivial (List.nodup_cons.mp nodup).2
          (fun j mem => todo j (List.mem_cons_of_mem i mem)) rfl ..⟩
      · exact ⟨place, flight, accounts⟩
  | case4 i ready fd =>
      simp only [Loop.exec] at step
      split at step
      · cases step
      · rename_i fresh
        cases step
        obtain ⟨fresh, notOwn⟩ := not_or.mp fresh
        exact ⟨_, flight, accounts.accept fresh notOwn⟩
  | case5 i ready =>
      simp only [Loop.exec] at step
      split at step
      · cases step
      · rename_i fdOpen pipe head
        cases step
        exact ⟨place, flight, accounts.watch (.decoding _ ready) trivial
          (List.nodup_cons.mp nodup).2 (fun j mem => todo j (List.mem_cons_of_mem i mem))
          head.symm ..⟩
  | case6 i ready fd =>
      obtain ⟨rfl, notOwn⟩ := allowed
      cases step
      exact ⟨_, flight, accounts.dispatch notOwn⟩
  | case7 =>
      cases step
      exact ⟨place, flight, accounts.watch .updating trivial List.nodup_nil nofun rfl ..⟩
  | case8 fdOpen ready a =>
      cases allowed
      cases head : s.pipe with
      | nil => simp [Loop.exec, head] at step
      | cons fd pipe => exact accounts.handBack head step
  | case9 =>
      cases step
      exact ⟨place, flight, accounts.watch .idle trivial List.nodup_nil nofun rfl ..⟩
  | case10 => cases ofMain
  | case11 => cases ofMain
  | case12 => cases ofMain
  | case13 => cases ofMain
  | case14 => cases ofMain
  | case15 => simp_all [Duty.allows]

end Accounts

/-! ## Steps of a worker -/

variable [DecidableEq W] {duty : Duty}

theorem client_update (workers : W → Duty) (w : W) (duty : Duty) :
    (fun v => (Function.update workers w duty v).client) =
      Function.update (fun v => (workers v).client) w duty.client := by
  funext v
  exact Function.apply_update (fun _ => Duty.client) workers w duty v

theorem ofWorker_update (each : ∀ v, (workers v).OfWorker) (ofWorker : duty.OfWorker) :
    ∀ v, (Function.update workers w duty v).OfWorker :=
  (Function.forall_update_iff workers fun _ duty => duty.OfWorker).mpr ⟨ofWorker, fun v _ => each v⟩

theorem Unfinished.update (unfinished : Unfinished workers rest)
    (before : ∀ a fd, workers w ≠ .halfway a fd) (now : ∀ a fd, duty ≠ .halfway a fd) :
    Unfinished (Function.update workers w duty) rest := by
  cases unfinished with
  | none complete =>
      apply Unfinished.none
      exact (Function.forall_update_iff workers fun _ duty => ∀ a fd, duty ≠ .halfway a fd).mpr
        ⟨now, fun v _ => complete v⟩
  | @one v a fd half only =>
      have other : v ≠ w := by
        rintro rfl
        exact before a fd half
      have half' : Function.update workers w duty v = .halfway a fd := by
        rw [Function.update_of_ne other]
        exact half
      apply Unfinished.one half'
      exact (Function.forall_update_iff workers fun u duty => ∀ b fd', duty = .halfway b fd' →
        u = v).mpr ⟨fun b fd' wrong => absurd wrong (now b fd'), fun u _ => only u⟩

namespace Accounts

theorem work (accounts : Accounts own main workers s place flight rest) (duty : Duty)
    (ofWorker : duty.OfWorker) (same : duty.client = (workers w).client)
    (before : ∀ a fd, workers w ≠ .halfway a fd) (now : ∀ a fd, duty ≠ .halfway a fd)
    {connected : Finset Nat} (fewer : connected ⊆ s.connected)
    (closing : ∀ fd ∈ connected, duty ≠ .answering 0 fd) :
    Accounts own main (Function.update workers w duty) { s with connected := connected }
      place flight rest := by
  have sameClients : (fun v => (Function.update workers w duty v).client) =
      fun v => (workers v).client := by
    rw [client_update, same, Function.update_eq_self w fun v => (workers v).client]
  refine { accounts with
    ofWorker := ofWorker_update accounts.ofWorker ofWorker
    places := by rw [sameClients]; exact { accounts.places with }
    unfinished := accounts.unfinished.update before now
    connected := fewer.trans accounts.connected
    hungUp := fun fd mem => ⟨(accounts.hungUp fd (fewer mem)).1, ?_⟩ }
  exact (Function.forall_update_iff workers fun _ duty => duty ≠ .answering 0 fd ∧
    duty ≠ .halfway 0 fd).mpr ⟨⟨closing fd mem, now 0 fd⟩, fun v _ =>
      (accounts.hungUp fd (fewer mem)).2 v⟩

theorem take {fd : Nat} {queue : List Nat}
    (accounts : Accounts own main workers s place flight rest) (waits : workers w = .atQueue)
    (head : s.queue = fd :: queue) :
    Accounts own main (Function.update workers w (.taken fd)) { s with queue := queue }
      (Function.update place fd (some (.worker w))) flight rest := by
  refine { accounts with
    ofWorker := ofWorker_update accounts.ofWorker trivial
    places := ?_
    unfinished := accounts.unfinished.update (by rw [waits]; nofun) nofun
    hungUp := fun fd' mem => ⟨(accounts.hungUp fd' mem).1, ?_⟩ }
  · rw [client_update]
    exact accounts.places.take head (by rw [waits]; rfl)
  · exact (Function.forall_update_iff workers fun _ duty => duty ≠ .answering 0 fd' ∧
      duty ≠ .halfway 0 fd').mpr ⟨⟨nofun, nofun⟩, fun v _ => (accounts.hungUp fd' mem).2 v⟩

theorem begin {a fd : Nat} (accounts : Accounts own main workers s place flight rest)
    (answers : workers w = .answering a fd)
    (alone : ∀ v b fd', workers v ≠ .halfway b fd') :
    Accounts own main (Function.update workers w (.halfway a fd)) { s with pipe := s.pipe ++ [a] }
      place flight [a] := by
  have sameClients : (fun v => (Function.update workers w (.halfway a fd) v).client) =
      fun v => (workers v).client := by
    have same : (Duty.halfway a fd).client = (workers w).client := by
      rw [answers]
      rfl
    rw [client_update, same, Function.update_eq_self w fun v => (workers v).client]
  have nothing : rest = [] := by
    cases accounts.unfinished with
    | none complete => rfl
    | one half only => exact absurd half (alone _ _ _)
  have pipe := accounts.pipe
  rw [nothing, List.append_nil] at pipe
  refine { accounts with
    ofWorker := ofWorker_update accounts.ofWorker trivial
    places := by rw [sameClients]; exact { accounts.places with }
    pipe := by rw [← pipe, List.append_assoc]
    unfinished := Unfinished.one (Function.update_self ..) ?_
    hungUp := fun fd' mem => ⟨(accounts.hungUp fd' mem).1, ?_⟩ }
  · exact (Function.forall_update_iff workers fun v duty => ∀ b fd', duty = .halfway b fd' →
      v = w).mpr ⟨fun _ _ _ => rfl, fun v _ b fd' half => absurd half (alone v b fd')⟩
  · refine (Function.forall_update_iff workers fun _ duty => duty ≠ .answering 0 fd' ∧
      duty ≠ .halfway 0 fd').mpr ⟨⟨nofun, ?_⟩, fun v _ => (accounts.hungUp fd' mem).2 v⟩
    intro same
    cases same
    exact ((accounts.hungUp _ mem).2 w).1 answers

theorem finish {a fd : Nat} (accounts : Accounts own main workers s place flight rest)
    (half : workers w = .halfway a fd) :
    Accounts own main (Function.update workers w .idle)
      { s with pipe := s.pipe ++ [fd], sent := s.sent ++ [(a, fd)] }
      (Function.update place fd (some .inFlight)) (flight ++ [(a, fd)]) [] := by
  have begun : rest = [a] ∧ ∀ v b fd', workers v = .halfway b fd' → v = w := by
    cases accounts.unfinished with
    | none complete => exact absurd half (complete w a fd)
    | one half' only =>
        cases only w a fd half
        cases half.symm.trans half'
        exact ⟨rfl, only⟩
  obtain ⟨rfl, only⟩ := begun
  have pipe := accounts.pipe
  refine { accounts with
    ofWorker := ofWorker_update accounts.ofWorker trivial
    places := ?_
    history := by rw [accounts.history, List.append_assoc]
    pipe := ?_
    unfinished := Unfinished.none ?_
    hungUp := fun fd' mem => ?_ }
  · rw [client_update, List.map_append]
    exact accounts.places.send (by rw [half]; rfl) _ _
  · rw [← List.append_assoc, pipe]
    simp [ints]
  · exact (Function.forall_update_iff workers fun _ duty => ∀ b fd', duty ≠ .halfway b fd').mpr
      ⟨nofun, fun v other b fd' half' => other (only v b fd' half')⟩
  · obtain ⟨notFlying, notServed⟩ := accounts.hungUp fd' mem
    constructor
    · intro wrong
      rcases List.mem_append.mp wrong with before | new
      · exact notFlying before
      · cases List.mem_singleton.mp new
        exact (notServed w).2 half
    · exact (Function.forall_update_iff workers fun _ duty => duty ≠ .answering 0 fd' ∧
        duty ≠ .halfway 0 fd').mpr ⟨⟨nofun, nofun⟩, fun v _ => notServed v⟩

theorem worker_step {o : LoopOp} {x : o.Resp}
    (accounts : Accounts own main workers s place flight rest) (allowed : (workers w).allows own o)
    (alone : ∀ a fd, o = .writeOpen a fd → ∀ v b fd', workers v ≠ .halfway b fd')
    (step : Loop.exec own o s = .ok (x, s')) :
    ∃ place' flight' rest', Accounts own main
      (Function.update workers w ((workers w).after own o x)) s' place' flight' rest' := by
  have ofWorker := accounts.ofWorker w
  generalize doing : workers w = duty at *
  fun_cases Duty.allows own duty o with
  | case1 => cases ofWorker
  | case2 => cases ofWorker
  | case3 => cases ofWorker
  | case4 => cases ofWorker
  | case5 => cases ofWorker
  | case6 => cases ofWorker
  | case7 => cases ofWorker
  | case8 => cases ofWorker
  | case9 => cases ofWorker
  | case10 =>
      cases head : s.queue with
      | nil =>
          simp only [Loop.exec, head] at step
          cases step
          exact ⟨place, flight, rest, accounts.work .idle trivial (by rw [doing]; rfl)
            (by rw [doing]; nofun) nofun subset_rfl nofun⟩
      | cons fd queue =>
          simp only [Loop.exec, head] at step
          cases step
          exact ⟨_, flight, rest, accounts.take doing head⟩
  | case11 fd fd' hangUp =>
      cases allowed
      cases step
      refine ⟨place, flight, rest, accounts.work (.answering _ _) trivial (by rw [doing]; rfl)
        (by rw [doing]; nofun) nofun ?_ fun fd' mem => ?_⟩
      · cases hangUp
        · exact subset_rfl
        · exact Finset.erase_subset ..
      · cases hangUp with
        | false => nofun
        | true =>
            intro same
            cases same
            exact Finset.notMem_erase _ _ mem
  | case12 a fd fd' =>
      cases step
      have same : Function.update workers w (.answering a fd) = workers := by
        rw [← doing, Function.update_eq_self]
      refine ⟨place, flight, rest, ?_⟩
      show Accounts own main (Function.update workers w (.answering a fd)) _ _ _ _
      rw [same]
      exact accounts
  | case13 a fd fdOpen fd' =>
      obtain ⟨rfl, rfl⟩ := allowed
      cases step
      exact ⟨place, flight, _, accounts.begin doing (alone _ _ rfl)⟩
  | case14 a fd fdOpen fd' =>
      obtain ⟨rfl, rfl⟩ := allowed
      cases step
      exact ⟨_, _, _, accounts.finish doing⟩
  | case15 => simp_all [Duty.allows]

end Accounts

end

end FileServer
