import FileServer.Proof.Concurrent.HandBack

/-!
# Where the maximum is

No descriptor lies above the maximum that `main` keeps, and `FdSetUpdate` makes it the largest one.
-/

namespace FileServer
open Program

section
variable {W : Type} {own : OwnFds}

/-- The pair that `main` is about to complete is the next one that a worker has written. -/
def Intact (s : System LoopOp LoopOp.Resp (Option W) Loop) (t : Option W) : Prop :=
  ∀ fdOpen fd rest next, s.threads t = .op (.readFd fdOpen) next → s.state.pipe = fd :: rest →
    s.state.decoded ++ [(fdOpen, fd)] <+: s.state.sent

def AcceptsAbove (own : OwnFds) (s : System LoopOp LoopOp.Resp (Option W) Loop) (t : Option W) : Prop :=
  ∀ fd next, s.threads t = .op (.accept fd) next → own.all.sup id < fd

end

/-! ## Where the maximum is -/

/-- The places of the descriptors together with what `main` relies on: no descriptor lies above `max`,
and the signal is read once. -/
structure Standing {W : Type} (own : OwnFds) (main : Duty) (workers : W → Duty) (s : Loop)
    (place : Nat → Option (Place W)) (flight : List (Nat × Nat)) : Prop where
  ofMain : main.OfMain
  ofWorker : ∀ w, (workers w).OfWorker
  todoNodup : main.todo.Nodup
  todo : ∀ i ∈ main.todo, i ∈ s.set
  places : Places own s (fun w => (workers w).client) (flight.map Prod.snd) place
  history : s.sent = s.decoded ++ flight
  ownSet : own.all ⊆ s.set
  above : ∀ fd ∈ s.accepted, own.all.sup id < fd
  bound : ∀ fd ∈ s.set ∪ s.workSet, fd ≤ s.max
  updated : main = .updating → s.max = (s.set ∪ s.workSet).sup id
  signal : own.signalpipe ∈ main.todo → s.signal = 0
  stopped : s.running = false → s.accepted = ∅ ∧ (main = .idle ∨ main = .atSelect)

section
variable {W : Type} {own : OwnFds} {main : Duty} {workers : W → Duty} {s s' : Loop}
  {place : Nat → Option (Place W)} {flight : List (Nat × Nat)} {w : W}

theorem Places.mem_sets (places : Places own s (fun w => (workers w).client) (flight.map Prod.snd) place)
    {fd : Nat} (notOwn : fd ∉ own.all) : fd ∈ s.set ∪ s.workSet ↔ fd ∈ s.accepted := by
  rw [Finset.mem_union, places.set fd notOwn, places.workSet, places.accepted]
  by_cases inSet : place fd = some .inSet <;> simp [inSet]

namespace Standing

theorem notOwn (standing : Standing own main workers s place flight) {fd : Nat}
    (isOpen : fd ∈ s.accepted) : fd ∉ own.all := fun isOwn =>
  (standing.places.accepted fd).mp isOpen (standing.places.foreign fd isOwn)

/-- The largest descriptor is one of `main`'s own exactly if there is no client. -/
theorem sup_eq_iff (standing : Standing own main workers s place flight) :
    (s.set ∪ s.workSet).sup id = own.all.sup id ↔ s.accepted = ∅ := by
  constructor
  · intro same
    rw [Finset.eq_empty_iff_forall_notMem]
    intro fd isOpen
    have mem := (standing.places.mem_sets (standing.notOwn isOpen)).mpr isOpen
    have le : fd ≤ (s.set ∪ s.workSet).sup id := Finset.le_sup (f := id) mem
    rw [same] at le
    exact absurd (standing.above fd isOpen) (Nat.not_lt.mpr le)
  · intro nobody
    have only : s.set ∪ s.workSet = own.all := by
      apply subset_antisymm
      · intro fd mem
        by_contra notOwn
        have isOpen := (standing.places.mem_sets notOwn).mp mem
        rw [nobody] at isOpen
        exact Finset.notMem_empty fd isOpen
      · exact standing.ownSet.trans Finset.subset_union_left
    rw [only]

theorem queue_eq_nil (standing : Standing own main workers s place flight) (nobody : s.accepted = ∅) :
    s.queue = [] := by
  apply List.eq_nil_iff_forall_not_mem.mpr
  intro fd waits
  have isOpen : fd ∈ s.accepted := by
    rw [standing.places.accepted, (standing.places.queue fd).mp waits]
    nofun
  rw [nobody] at isOpen
  exact Finset.notMem_empty fd isOpen

theorem running (standing : Standing own main workers s place flight) (notIdle : main ≠ .idle)
    (past : main ≠ .atSelect) : s.running ≠ false := fun stopped =>
  (standing.stopped stopped).2.elim notIdle past

theorem watch (standing : Standing own main workers s place flight) (main' : Duty)
    (ofMain : main'.OfMain) (nodup : main'.todo.Nodup) (todo : main'.todo ⊆ main.todo)
    (notIdle : main ≠ .idle) (past : main ≠ .atSelect) (notUpdating : main' ≠ .updating)
    (pipe : List Nat) {signal : Nat} (heard : own.signalpipe ∈ main'.todo → signal = s.signal) :
    Standing own main' workers { s with pipe := pipe, signal := signal } place flight :=
  { standing with
    ofMain := ofMain, todoNodup := nodup, todo := fun i mem => standing.todo i (todo mem)
    places := { standing.places with }
    updated := fun updating => absurd updating notUpdating
    signal := fun mem => (heard mem).trans (standing.signal (todo mem))
    stopped := fun stopped => absurd stopped (standing.running notIdle past) }

theorem accept {i fd : Nat} {todo : List Nat}
    (standing : Standing own (.scanning (i :: todo)) workers s place flight)
    (fresh : fd ∉ s.accepted) (notOwn : fd ∉ own.all) (above : own.all.sup id < fd) :
    Standing own (.scanning todo) workers { s with
      set := insert fd s.set, max := Nat.max s.max fd
      accepted := insert fd s.accepted, connected := insert fd s.connected }
      (Function.update place fd (some .inSet)) flight where
  ofMain := trivial
  ofWorker := standing.ofWorker
  todoNodup := (List.nodup_cons.mp standing.todoNodup).2
  todo j mem := Finset.mem_insert_of_mem (standing.todo j (List.mem_cons_of_mem i mem))
  places := standing.places.accept fresh notOwn ..
  history := standing.history
  ownSet := standing.ownSet.trans (Finset.subset_insert ..)
  above j mem := by
    rcases Finset.mem_insert.mp mem with rfl | before
    · exact above
    · exact standing.above j before
  bound j mem := by
    rw [Finset.insert_union] at mem
    rcases Finset.mem_insert.mp mem with rfl | before
    · exact Nat.le_max_right ..
    · exact (standing.bound j before).trans (Nat.le_max_left ..)
  updated := nofun
  signal mem := standing.signal (List.mem_cons_of_mem i mem)
  stopped stopped := absurd stopped (standing.running nofun nofun)

theorem dispatch {fd : Nat} {todo : List Nat}
    (standing : Standing own (.scanning (fd :: todo)) workers s place flight) (notOwn : fd ∉ own.all) :
    Standing own (.scanning todo) workers { s with
      queue := s.queue ++ [fd], set := s.set.erase fd, workSet := insert fd s.workSet }
      (Function.update place fd (some .queued)) flight where
  ofMain := trivial
  ofWorker := standing.ofWorker
  todoNodup := (List.nodup_cons.mp standing.todoNodup).2
  todo j mem := by
    have notLater := (List.nodup_cons.mp standing.todoNodup).1
    exact Finset.mem_erase_of_ne_of_mem (ne_of_mem_of_not_mem mem notLater)
      (standing.todo j (List.mem_cons_of_mem fd mem))
  places := standing.places.dispatch (standing.todo fd List.mem_cons_self) notOwn
  history := standing.history
  ownSet i mem := Finset.mem_erase_of_ne_of_mem (ne_of_mem_of_not_mem mem notOwn) (standing.ownSet mem)
  above := standing.above
  bound j mem := by
    have inSet := standing.todo fd List.mem_cons_self
    apply standing.bound
    rw [Finset.mem_union] at mem ⊢
    rcases mem with idle | served
    · exact .inl (Finset.mem_of_mem_erase idle)
    · rcases Finset.mem_insert.mp served with rfl | before
      · exact .inl inSet
      · exact .inr before
  updated := nofun
  signal mem := standing.signal (List.mem_cons_of_mem fd mem)
  stopped stopped := absurd stopped (standing.running nofun nofun)

theorem handBack {fdOpen fd : Nat} {todo pipe : List Nat}
    (standing : Standing own (.decoding fdOpen todo) workers s place flight)
    (head : s.pipe = fd :: pipe) (intact : s.decoded ++ [(fdOpen, fd)] <+: s.sent)
    (step : Loop.exec own (.readFd fdOpen) s = .ok ((), s')) :
    ∃ place' flight', Standing own (.scanning todo) workers s' place' flight' := by
  rw [standing.history, List.prefix_append_right_inj] at intact
  obtain ⟨flight', rfl⟩ := intact
  have history : s.sent = s.decoded ++ [(fdOpen, fd)] ++ flight' := by
    rw [standing.history, List.append_assoc]
  obtain ⟨stays, leaves⟩ := standing.places.handBack pipe (s.decoded ++ [(fdOpen, fd)])
  have served : fd ∈ s.workSet := by
    rw [standing.places.workSet, (standing.places.inFlight fd).mp List.mem_cons_self]
    exact ⟨by simp, by simp⟩
  have below := standing.bound fd (Finset.mem_union_right _ served)
  have stillRunning := standing.running (by simp) (by simp)
  have bound (fd' : Nat) (mem : fd' ∈ s.set ∪ s.workSet.erase fd) : fd' ≤ s.max :=
    standing.bound fd' (Finset.union_subset_union_right (Finset.erase_subset ..) mem)
  simp only [Loop.exec, head] at step
  by_cases isOpen : fdOpen ≠ 0
  · rw [if_pos isOpen] at step
    cases step
    refine ⟨_, flight', { standing with
      ofMain := trivial, todoNodup := standing.todoNodup
      todo := fun j mem => Finset.mem_insert_of_mem (standing.todo j mem)
      places := stays, history := history
      ownSet := standing.ownSet.trans (Finset.subset_insert ..)
      bound := fun fd' mem => ?_
      updated := by simp, signal := standing.signal
      stopped := fun stopped => absurd stopped stillRunning }⟩
    rw [Finset.insert_union] at mem
    rcases Finset.mem_insert.mp mem with rfl | before
    · exact below
    · exact bound fd' before
  · rw [if_neg isOpen] at step
    cases step
    exact ⟨_, flight', { standing with
      ofMain := trivial, todoNodup := standing.todoNodup, todo := standing.todo
      places := leaves, history := history
      above := fun fd' mem => standing.above fd' (Finset.mem_of_mem_erase mem)
      bound := bound, updated := by simp, signal := standing.signal
      stopped := fun stopped => absurd stopped stillRunning }⟩

theorem update {max : Nat} (standing : Standing own (.scanning []) workers s place flight)
    (largest : max = (s.set ∪ s.workSet).sup id) :
    Standing own .updating workers { s with max := max } place flight :=
  { standing with
    ofMain := trivial, todoNodup := List.nodup_nil, todo := nofun
    places := { standing.places with }
    bound := fun fd mem => by
      rw [largest]
      exact Finset.le_sup (f := id) mem
    updated := fun _ => largest
    signal := nofun
    stopped := fun stopped => absurd stopped (standing.running nofun nofun) }

theorem testBreak {running : Bool} (standing : Standing own .updating workers s place flight)
    (left : running = false → s.max = own.all.sup id) :
    Standing own .idle workers { s with running := running } place flight :=
  { standing with
    ofMain := trivial, todoNodup := List.nodup_nil, todo := nofun
    places := { standing.places with }
    updated := nofun
    signal := nofun
    stopped := fun stopped => by
      refine ⟨standing.sup_eq_iff.mp ?_, .inl rfl⟩
      rw [← standing.updated rfl]
      exact left stopped }

theorem main_step {o : LoopOp} {x : o.Resp} (standing : Standing own main workers s place flight)
    (allowed : main.allows own o)
    (intact : ∀ fdOpen fd rest, o = .readFd fdOpen → s.pipe = fd :: rest →
      s.decoded ++ [(fdOpen, fd)] <+: s.sent)
    (above : ∀ fd, o = .accept fd → own.all.sup id < fd)
    (step : Loop.exec own o s = .ok (x, s')) :
    ∃ place' flight', Standing own (main.after own o x) workers s' place' flight' := by
  have ofMain := standing.ofMain
  have nodup := standing.todoNodup
  fun_cases Duty.allows own main o with
  | case1 ready =>
      simp only [Loop.exec] at step
      split at step
      · rename_i reports
        cases step
        obtain ⟨running, -, -, sorted, inside, -, unread⟩ := reports
        exact ⟨place, flight, { standing with
          ofMain := trivial, todoNodup := sorted.nodup, todo := fun i mem => (inside i mem).1
          updated := by simp [Duty.after], signal := unread
          stopped := fun stopped => by rw [running] at stopped; cases stopped }⟩
      · cases step
  | case2 i ready signal =>
      simp only [Loop.exec] at step
      split at step
      · cases step
        cases allowed
        obtain ⟨once, nodup'⟩ := List.nodup_cons.mp nodup
        exact ⟨place, flight, standing.watch (.scanning ready) trivial nodup' (List.subset_cons_self ..)
          (by simp) (by simp) (by simp) _ fun later => absurd later once⟩
      · cases step
  | case3 i ready =>
      cases step
      change ∃ place' flight', Standing own (if i = own.listenSocket ∧ s.signal = SIGHUP then
        .scanning ready else .scanning (i :: ready)) workers s place' flight'
      split
      · exact ⟨place, flight, standing.watch (.scanning ready) trivial (List.nodup_cons.mp nodup).2
          (List.subset_cons_self ..) (by simp) (by simp) (by simp) _ fun _ => rfl⟩
      · exact ⟨place, flight, standing⟩
  | case4 i ready fd =>
      simp only [Loop.exec] at step
      split at step
      · cases step
      · rename_i fresh
        cases step
        obtain ⟨fresh, notOwn⟩ := not_or.mp fresh
        exact ⟨_, flight, standing.accept fresh notOwn (above fd rfl)⟩
  | case5 i ready =>
      simp only [Loop.exec] at step
      split at step
      · cases step
      · cases step
        exact ⟨place, flight, standing.watch (.decoding _ ready) trivial (List.nodup_cons.mp nodup).2
          (List.subset_cons_self ..) (by simp) (by simp) (by simp) _ fun _ => rfl⟩
  | case6 i ready fd =>
      obtain ⟨rfl, notOwn⟩ := allowed
      cases step
      exact ⟨_, flight, standing.dispatch notOwn⟩
  | case7 =>
      have all : (s.set ∪ s.workSet).filter (· ≤ s.max) = s.set ∪ s.workSet :=
        Finset.filter_true_of_mem standing.bound
      cases step
      exact ⟨place, flight, standing.update (by rw [all])⟩
  | case8 fdOpen ready a =>
      cases allowed
      cases head : s.pipe with
      | nil => simp [Loop.exec, head] at step
      | cons fd pipe => exact standing.handBack head (intact fdOpen fd pipe rfl head) step
  | case9 =>
      cases step
      refine ⟨place, flight, standing.testBreak fun left => ?_⟩
      simp only [Bool.not_eq_eq_eq_not, Bool.not_false, Bool.and_eq_true, decide_eq_true_eq] at left
      exact left.2
  | case15 => simp_all [Duty.allows]
  | _ => cases ofMain

variable [DecidableEq W]

theorem work {duty : Duty} {queue pipe : List Nat} {connected : Finset Nat} {sent : List (Nat × Nat)}
    {place' : Nat → Option (Place W)} {flight' : List (Nat × Nat)}
    (standing : Standing own main workers s place flight) (ofWorker : duty.OfWorker)
    (places : Places own { s with queue := queue, pipe := pipe, connected := connected, sent := sent }
      (Function.update (fun v => (workers v).client) w duty.client) (flight'.map Prod.snd) place')
    (history : sent = s.decoded ++ flight') :
    Standing own main (Function.update workers w duty)
      { s with queue := queue, pipe := pipe, connected := connected, sent := sent } place' flight' :=
  { standing with
    ofWorker := ofWorker_update standing.ofWorker ofWorker
    places := by rw [client_update]; exact places
    history := history }

theorem serve {duty : Duty} {pipe : List Nat} {connected : Finset Nat}
    (standing : Standing own main workers s place flight) (ofWorker : duty.OfWorker)
    (same : duty.client = (workers w).client) :
    Standing own main (Function.update workers w duty)
      { s with pipe := pipe, connected := connected } place flight := by
  apply standing.work ofWorker _ standing.history
  rw [same, Function.update_eq_self w fun v => (workers v).client]
  exact { standing.places with }

theorem worker_step {o : LoopOp} {x : o.Resp} (standing : Standing own main workers s place flight)
    (allowed : (workers w).allows own o) (step : Loop.exec own o s = .ok (x, s')) :
    ∃ place' flight', Standing own main (Function.update workers w ((workers w).after own o x)) s'
      place' flight' := by
  have ofWorker := standing.ofWorker w
  generalize doing : workers w = duty at *
  fun_cases Duty.allows own duty o with
  | case10 =>
      cases head : s.queue with
      | nil =>
          simp only [Loop.exec, head] at step
          cases step
          exact ⟨place, flight, standing.serve trivial (by rw [doing]; rfl)⟩
      | cons fd queue =>
          simp only [Loop.exec, head] at step
          cases step
          exact ⟨_, flight, standing.work trivial (standing.places.take head (by rw [doing]; rfl))
            standing.history⟩
  | case11 fd fd' hangUp =>
      cases allowed
      cases step
      exact ⟨place, flight, standing.serve trivial (by rw [doing]; rfl)⟩
  | case12 a fd fd' =>
      cases step
      exact ⟨place, flight, standing.serve trivial (by rw [doing]; rfl)⟩
  | case13 a fd fdOpen fd' =>
      obtain ⟨rfl, rfl⟩ := allowed
      cases step
      exact ⟨place, flight, standing.serve trivial (by rw [doing]; rfl)⟩
  | case14 a fd fdOpen fd' =>
      obtain ⟨rfl, rfl⟩ := allowed
      cases step
      refine ⟨Function.update place fd' (some .inFlight), flight ++ [(fdOpen, fd')],
        standing.work trivial ?_ ?_⟩
      · rw [List.map_append]
        exact standing.places.send (by rw [doing]; rfl) _ _
      · rw [standing.history, List.append_assoc]
  | case15 => simp_all [Duty.allows]
  | _ => cases ofWorker

end Standing

end

end FileServer
