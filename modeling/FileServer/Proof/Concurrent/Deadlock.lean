import FileServer.Program.Waiting
import FileServer.Proof.Concurrent.Holding

/-!
# Waiting for mutexes
-/

namespace FileServer
open Program

def Waits {W : Type} (s : System Op Op.Resp W (Server W)) (t u : W) : Prop :=
  t ≠ u ∧ ∃ m, (s.threads t).next? = some (.lock m) ∧ s.state.owner m = some u

def AsksEarly (o : Op) : Prop := o = .lock .fileN ∨ o = .lock .filestack

/-- Unless it fails, it goes on to ask for `file_n_mutex` or `filestack_mutex` before it gives back the
mutex of `f`. -/
def StillAsks (f : FileId) (p : Handler Unit) : Prop :=
  p.Meets AsksEarly (fun o _ => o = .unlock (.file f)) ∧
    p.Must AsksEarly (fun o _ => o = .unlock (.file f))

/-- It may ask for the mutex of `f` before it gives back `filestack_mutex` or picks again. -/
def HasPicked (f : FileId) (p : Handler Unit) : Prop :=
  p.Meets (fun o => o = .lock (.file f)) fun o _ => o = .unlock .filestack ∨ ∃ str, o = .stackGetTop str

/-- The step does not bring together a worker that has picked a record and one that holds its mutex and
still asks for a mutex the eviction holds. -/
structure KeepsApart {W : Type} (cfg : Config) (s : System Op Op.Resp W (Server W)) (w : W) : Prop where
  pick : ∀ str next f state, s.threads w = .op (.stackGetTop str) next →
    (server W cfg).exec w (.stackGetTop str) s.state = .ok (f, state) →
    ∀ v, v ≠ w → s.state.owner (.file f) = some v → ¬StillAsks f (s.threads v)
  ask : ∀ o next x state f, s.threads w = .op o next →
    (server W cfg).exec w o s.state = .ok (x, state) →
    state.owner (.file f) = some w → StillAsks f (next x) →
    ∀ v, v ≠ w → s.state.owner .filestack = some v → ¬HasPicked f (s.threads v)

section
variable {W : Type} {cfg : Config} {f : FileId} {p : Handler Unit} {h : Hand}
  {post : Unit → Hand → Prop}

theorem stillAsks_of_next {m : Mutex} (asks : p.next? = some (.lock m))
    (early : m = .fileN ∨ m = .filestack) : StillAsks f p := by
  obtain ⟨next, rfl⟩ := next?_eq_some asks
  have early : AsksEarly (.lock m) := early.imp (congrArg _) (congrArg _)
  exact ⟨.inl early, .inl early⟩

theorem hasPicked_of_next (asks : p.next? = some (.lock (.file f))) : HasPicked f p := by
  obtain ⟨next, rfl⟩ := next?_eq_some asks
  exact .inl rfl

theorem Hand.after_victim {o : Op} {x : o.Resp} (unpicked : ∀ str, o ≠ .stackGetTop str)
    (picked : (h.after o x).victim = some f) : h.victim = some f ∧ o ≠ .lock .filestack := by
  cases o with
  | lock m =>
      cases m with
      | filestack => cases picked
      | _ => exact ⟨picked, nofun⟩
  | stackGetTop str => exact (unpicked str rfl).elim
  | hashTbSearch path flag => cases flag <;> exact ⟨picked, nofun⟩
  | store g field => cases field <;> exact ⟨picked, nofun⟩
  | _ => exact ⟨picked, nofun⟩

theorem Hand.after_mem_locks {o : Op} {x : o.Resp} {m : Mutex} (held : m ∈ h.locks)
    (kept : o ≠ .unlock m) : m ∈ (h.after o x).locks := by
  by_cases locks : ∃ m', o = .lock m'
  · obtain ⟨m', rfl⟩ := locks
    rw [after_lock_locks]
    exact List.mem_cons_of_mem m' held
  by_cases unlocks : ∃ m', o = .unlock m'
  · obtain ⟨m', rfl⟩ := unlocks
    apply (List.mem_erase_of_ne _).mpr held
    rintro rfl
    exact kept rfl
  rw [after_locks (fun m' same => locks ⟨m', same⟩) fun m' same => unlocks ⟨m', same⟩]
  exact held

theorem victim_of_hasPicked (picked : HasPicked f p) (safe : wp (conduct cfg False) p post h)
    (held : .filestack ∈ h.locks) : h.victim = some f := by
  revert held
  refine Meets.of_wp (P := fun h => .filestack ∈ h.locks → h.victim = some f) ?_ ?_ picked safe
  · rintro h o allowed rfl held
    rcases allowed.2 with idle | ⟨-, -, victim⟩ | ⟨table, -⟩
    · rw [idle] at held
      cases held
    · exact victim
    · rw [table] at held
      cases held with
      | tail _ wrong => cases wrong
  · intro h o x allowed onward
    push Not at onward
    refine ⟨h.after o x, ⟨expects_uncounted x, rfl⟩, fun later held => ?_⟩
    exact (Hand.after_victim onward.2 (later (Hand.after_mem_locks held onward.1))).1

end

/-! ## Runs -/

def Apart {W : Type} (s : System Op Op.Resp W (Server W)) : Prop :=
  ∀ f u v, u ≠ v → s.state.owner (.file f) = some u → s.state.owner .filestack = some v →
    StillAsks f (s.threads u) → ¬HasPicked f (s.threads v)

section
variable {W : Type} [DecidableEq W] {cfg : Config} {s : System Op Op.Resp W (Server W)} {w : W}
  {G : W → Hand}

theorem InHand.owner_before {o : Op} {x : o.Resp} {state : Server W} (inHand : InHand cfg G s.state)
    (allowed : (G w).allows cfg False o) (step : Server.exec cfg w o s.state = .ok (x, state))
    {m : Mutex} {v : W} (other : v ≠ w) (owned : state.owner m = some v) :
    s.state.owner m = some v := by
  rw [(inHand.exec_owners allowed step).1, Function.update_of_ne other] at owned
  exact (inHand.owner m v).mpr owned

theorem Apart.start {p : Handler Unit} (apart : Apart s) (inHand : InHand cfg G s.state)
    (idle : (G w).locks = []) : Apart (s.set w p s.state) := by
  have unowned (m : Mutex) : s.state.owner m ≠ some w := by
    intro owned
    rw [inHand.owner, idle] at owned
    cases owned
  intro f u v different holds evicts
  have notU : u ≠ w := by
    rintro rfl
    exact unowned _ holds
  have notV : v ≠ w := by
    rintro rfl
    exact unowned _ evicts
  rw [System.set_threads_of_ne _ _ _ notU, System.set_threads_of_ne _ _ _ notV]
  exact apart f u v different holds evicts

theorem Apart.exec {o : Op} {next : o.Resp → Handler Unit} {x : o.Resp} {state : Server W}
    (apart : Apart s) (inHand : InHand cfg G s.state)
    (safe : wp (conduct cfg False) (next x) (fun _ h => h.locks = []) ((G w).after o x))
    (action : s.threads w = .op o next) (keeps : KeepsApart cfg s w)
    (allowed : (G w).allows cfg False o) (step : Server.exec cfg w o s.state = .ok (x, state)) :
    Apart (s.set w (next x) state) := by
  intro f u v different holds evicts asks picked
  obtain ⟨owner, -⟩ := inHand.exec_owners allowed step
  by_cases asking : u = w
  · -- the holder of the mutex has gone on
    subst asking
    have evicted := inHand.owner_before allowed step different.symm evicts
    rw [System.set_threads_self] at asks
    rw [System.set_threads_of_ne _ _ _ different.symm] at picked
    exact keeps.ask o next x state f action step holds asks v different.symm evicted picked
  have held := inHand.owner_before allowed step asking holds
  rw [System.set_threads_of_ne _ _ _ asking] at asks
  by_cases evicting : v = w
  · -- the eviction has gone on
    subst evicting
    rw [System.set_threads_self] at picked
    have taken : .filestack ∈ ((G v).after o x).locks := by
      have taken := (owner _ _).mp evicts
      rwa [Function.update_self] at taken
    have victim := victim_of_hasPicked picked safe taken
    by_cases now : ∃ str, o = .stackGetTop str
    · obtain ⟨str, rfl⟩ := now
      cases victim
      exact keeps.pick str next f state action step u asking held asks
    · have unpicked (str : CStr) : o ≠ .stackGetTop str := fun same => now ⟨str, same⟩
      obtain ⟨-, notTaken⟩ := Hand.after_victim unpicked victim
      have notGiven : o ≠ .unlock .filestack := by
        rintro rfl
        exact (inHand.once v).not_mem_erase taken
      have before : s.state.owner .filestack = some v := by
        by_cases locks : ∃ m, o = .lock m
        · obtain ⟨m, rfl⟩ := locks
          rw [Hand.after_lock_locks] at taken
          cases taken with
          | head => exact (notTaken rfl).elim
          | tail _ before => exact (inHand.owner _ _).mpr before
        by_cases unlocks : ∃ m, o = .unlock m
        · obtain ⟨m, rfl⟩ := unlocks
          exact (inHand.owner _ _).mpr (List.mem_of_mem_erase taken)
        rw [Hand.after_locks (fun m same => locks ⟨m, same⟩) fun m same => unlocks ⟨m, same⟩] at taken
        exact (inHand.owner _ _).mpr taken
      apply apart f u v different held before asks
      rw [action]
      refine .inr ⟨x, ?_, picked⟩
      rintro (given | ⟨str, again⟩)
      · exact notGiven given
      · exact unpicked str again
  · have evicted := inHand.owner_before allowed step evicting evicts
    rw [System.set_threads_of_ne _ _ _ evicting] at picked
    exact apart f u v different held evicted asks picked

/-! ## The order of the requests -/

/-- Where a request stands in the order: first a handler's own record, then `file_n_mutex`,
`filestack_mutex`, the victim's mutex, `hashTB_mutex` and `pages_mutex`. -/
def requestRank (h : Hand) : Option Op → Nat
  | some (.lock (.file _)) => if h.locks = [] then 0 else 3
  | some (.lock .fileN) => 1
  | some (.lock .filestack) => 2
  | some (.lock .hashTB) => 4
  | some (.lock .pages) => 5
  | _ => 0

theorem requestRank_shared {h h' : Hand} {m m' : Mutex} (shared : 0 < m.rank)
    (order : m.rank < m'.rank) :
    requestRank h (some (.lock m)) < requestRank h' (some (.lock m')) := by
  cases m <;> cases m' <;> simp_all [Mutex.rank, requestRank]

theorem requestRank_victim {h h' : Hand} {m : Mutex} {g : FileId} (shared : 0 < m.rank)
    (low : m.rank ≤ 2) (busy : h'.locks ≠ []) :
    requestRank h (some (.lock m)) < requestRank h' (some (.lock (.file g))) := by
  cases m <;> simp_all [Mutex.rank, requestRank]

theorem requestRank_own {h h' : Hand} {m' : Mutex} {f : FileId} (idle : h.locks = [])
    (busy : h'.locks ≠ []) :
    requestRank h (some (.lock (.file f))) < requestRank h' (some (.lock m')) := by
  cases m' <;> simp [requestRank, idle, busy]

omit [DecidableEq W] in
/-- Whoever holds a mutex and asks for another one stands later in the order than those who wait for
it. -/
theorem requestRank_lt {t u v : W} (inHand : InHand cfg G s.state) (apart : Apart s)
    (safe : ∀ w, wp (conduct cfg False) (s.threads w) (fun _ h => h.locks = []) (G w))
    (first : Waits s t u) (second : Waits s u v) :
    requestRank (G t) (s.threads t).next? < requestRank (G u) (s.threads u).next? := by
  have asked {w : W} {m : Mutex} (asks : (s.threads w).next? = some (.lock m)) :
      (G w).mayLock m := by
    obtain ⟨next, action⟩ := next?_eq_some asks
    have safe := safe w
    rw [action] at safe
    exact safe.1.2
  have unfresh {f : FileId} {t u : W} (other : t ≠ u) (owned : s.state.owner (.file f) = some u) :
      (G t).fresh ≠ some f := by
    intro fresh
    exact (inHand.fresh t f fresh).2.2 u other.symm (.inr ((inHand.owner _ _).mp owned))
  obtain ⟨other, m, asks, owned⟩ := first
  obtain ⟨other', m', asks', owned'⟩ := second
  have held : m ∈ (G u).locks := (inHand.owner m u).mp owned
  have busy : (G u).locks ≠ [] := List.ne_nil_of_mem held
  have different : m ≠ m' := by
    rintro rfl
    rw [owned'] at owned
    exact other' (Option.some.inj owned).symm
  have victim {g : FileId} (same : m' = .file g) : .filestack ∈ (G u).locks ∧ (G u).Below 2 := by
    subst same
    rcases asked asks' with idle | ⟨evicts, below, -⟩ | ⟨-, fresh⟩
    · exact (busy idle).elim
    · exact ⟨evicts, below⟩
    · exact (unfresh other' owned' fresh).elim
  rw [asks, asks']
  cases Nat.eq_zero_or_pos m.rank with
  | inr shared =>
      cases m' with
      | file g => exact requestRank_victim shared ((victim rfl).2 m held) busy
      | _ =>
          have order := asked asks' m held
          apply requestRank_shared shared
          cases m <;> simp_all [Mutex.rank]
  | inl zero =>
      obtain ⟨f, rfl⟩ : ∃ f, m = .file f := by
        cases m <;> first | exact ⟨_, rfl⟩ | cases zero
      rcases asked asks with idle | ⟨evicts, -, -⟩ | ⟨-, fresh⟩
      · exact requestRank_own idle busy
      · have evicting := (inHand.owner .filestack t).mpr evicts
        have early (early : m' = .fileN ∨ m' = .filestack) : False :=
          apart f u t other.symm owned evicting (stillAsks_of_next asks' early) (hasPicked_of_next asks)
        have three : requestRank (G t) (some (.lock (.file f))) = 3 :=
          if_neg (List.ne_nil_of_mem evicts)
        rw [three]
        cases m' with
        | file g =>
            have both := (inHand.owner .filestack u).mpr (victim rfl).1
            rw [evicting] at both
            exact (other (Option.some.inj both)).elim
        | fileN => exact (early (.inl rfl)).elim
        | filestack => exact (early (.inr rfl)).elim
        | hashTB => exact Nat.lt_succ_self 3
        | pages => exact Nat.lt_add_of_pos_right Nat.two_pos
      · exact (unfresh other owned fresh).elim

theorem apart_preserved (cfg : Config) :
    Machine.Preserved (server W cfg) (ClientStarts cfg) (KeepsApart cfg) (Server.initial W cfg)
      (conduct cfg False) (fun h => h.locks = []) (fun G s => InHand cfg G s.state ∧ Apart s) where
  init := ⟨_, ⟨InHand.initial cfg, fun _ _ _ _ holds => nomatch holds⟩, fun _ => rfl⟩
  start _ _ _ _ both _ done allowed :=
    ⟨.empty, ⟨both.1.start done, both.2.start both.1 done⟩, wp_client allowed⟩
  exec _ _ w _ _ x _ both safe action keeps allowed step :=
    ⟨_, ⟨expects_uncounted x, rfl⟩, both.1.exec allowed step,
      both.2.exec both.1 (safe_after (safe w) action x) action keeps allowed step⟩

/-- As long as no eviction meets a growing file, the workers never wait in a circle. -/
theorem no_circular_wait
    (reachable : (server W cfg).Reachable (ClientStarts cfg) (KeepsApart cfg) (Server.initial W cfg) s) :
    ¬Circular (Waits s) := by
  obtain ⟨G, ⟨inHand, apart⟩, safe⟩ := (apart_preserved cfg).reachable reachable
  exact not_circular_of_rank (fun w => requestRank (G w) (s.threads w).next?)
    fun t u v first second => requestRank_lt inHand apart safe first second

end

/-! ## A growing file as the victim -/

def lastPage : List ClientMove :=
  searches true [98] ++ creates true ++ requests smallConfig true (.fileWrite [98] 7 12 (ones 12)) 42 ++
    searches true [97] ++ creates true ++ requests smallConfig true (.fileWrite [97] 7 4 (ones 4)) 30 ++
    searches false [99] ++ creates false

theorem lastPage_starts : ∀ m ∈ lastPage, m.startsFrom (ClientStarts smallConfig) := by
  simp only [lastPage, List.forall_mem_append]
  exact ⟨⟨⟨⟨⟨⟨⟨searches_starts _ _, creates_starts _⟩, requests_starts _ _ _ _⟩, searches_starts _ _⟩,
    creates_starts _⟩, requests_starts _ _ _ _⟩, searches_starts _ _⟩, creates_starts _⟩

/-- One worker appends to `a` and finds no page left, the other one writes a third file and evicts. -/
def growsAndEvicts : List ClientMove :=
  lastPage ++ requests smallConfig true (.fileAppend [97] 7 5 (ones 5)) 13 ++
    requests smallConfig false (.fileWrite [99] 7 4 (ones 4)) 17

def waitsTest (s : System Op Op.Resp Bool (Server Bool)) (w : Bool) (m : Mutex) : Bool :=
  (match (s.threads w).next? with
    | some (.lock m') => m' = m
    | _ => false) && s.state.owner m = some (!w)

theorem waits_of_test {s : System Op Op.Resp Bool (Server Bool)} {w : Bool} {m : Mutex}
    (passes : waitsTest s w m = true) : Waits s w !w := by
  rw [waitsTest, Bool.and_eq_true] at passes
  refine ⟨by simp, m, ?_, of_decide_eq_true passes.2⟩
  have asks := passes.1
  split at asks
  · rename_i m' asks'
    rw [asks', of_decide_eq_true asks]
  · cases asks

theorem circular_wait : ∃ s : System Op Op.Resp Bool (Server Bool),
    (server Bool smallConfig).Reachable (ClientStarts smallConfig) (fun _ _ => True)
      (Server.initial Bool smallConfig) s ∧ Circular (Waits s) := by
  have starts : ∀ m ∈ growsAndEvicts, m.startsFrom (ClientStarts smallConfig) := by
    simp only [growsAndEvicts, List.forall_mem_append]
    exact ⟨⟨lastPage_starts, requests_starts _ _ _ _⟩, requests_starts _ _ _ _⟩
  have run : ∃ s, (server Bool smallConfig).Reachable (ClientStarts smallConfig)
      (fun _ _ => True) (Server.initial Bool smallConfig) s ∧
        (waitsTest s true .filestack && waitsTest s false (.file 1)) = true :=
    Machine.Reachable.of_schedule (fun _ _ => true) (fun _ _ _ => trivial) starts
      (by decide +kernel)
  obtain ⟨s, reachable, final⟩ := run
  rw [Bool.and_eq_true] at final
  exact ⟨s, reachable, circular_of_two (waits_of_test final.1) (waits_of_test final.2)⟩

/-- One worker appends to `b` and finds no page left; the other one writes a third file and evicts `a`. -/
def growsBesideVictim : List ClientMove :=
  searches true [98] ++ creates true ++ requests smallConfig true (.fileWrite [98] 7 11 (ones 11)) 42 ++
    searches true [97] ++ creates true ++ requests smallConfig true (.fileWrite [97] 7 4 (ones 4)) 30 ++
    searches false [99] ++ creates false ++ requests smallConfig true (.fileAppend [98] 7 2 (ones 2)) 13 ++
    requests smallConfig false (.fileWrite [99] 7 4 (ones 4)) 21

/-- What is picked is in nobody's hands, and nobody moves while the other worker has `filestack_mutex`. -/
def keepsApartTest (s : System Op Op.Resp Bool (Server Bool)) (w : Bool) : Bool :=
  (match (s.threads w).next? with
    | some (.stackGetTop str) => match Server.exec smallConfig w (.stackGetTop str) s.state with
        | .ok (f, _) => s.state.owner (.file f) ≠ some (!w)
        | _ => true
    | _ => true) && s.state.owner .filestack ≠ some (!w)

theorem keepsApart_of_test (s : System Op Op.Resp Bool (Server Bool)) (w : Bool)
    (passes : keepsApartTest s w = true) : KeepsApart smallConfig s w := by
  have same {v : Bool} (other : v ≠ w) : v = !w := by
    cases v <;> cases w <;> simp_all
  rw [keepsApartTest, Bool.and_eq_true] at passes
  refine ⟨fun str next f state action picked v other owned => ?_, fun _ _ _ _ _ _ _ _ _ v other owned => ?_⟩
  · have picked : Server.exec smallConfig w (.stackGetTop str) s.state = .ok (f, state) := picked
    rw [action] at passes
    simp only [next?, picked] at passes
    rw [same other] at owned
    exact (of_decide_eq_true passes.1 owned).elim
  · rw [same other] at owned
    exact (of_decide_eq_true passes.2 owned).elim

theorem no_circular_wait_example : ∃ s : System Op Op.Resp Bool (Server Bool),
    s.state.store.recorded = [2, 0] ∧ Waits s true false ∧ ¬Circular (Waits s) := by
  have starts : ∀ m ∈ growsBesideVictim, m.startsFrom (ClientStarts smallConfig) := by
    simp only [growsBesideVictim, List.forall_mem_append]
    exact ⟨⟨⟨⟨⟨⟨⟨⟨⟨searches_starts _ _, creates_starts _⟩, requests_starts _ _ _ _⟩, searches_starts _ _⟩,
      creates_starts _⟩, requests_starts _ _ _ _⟩, searches_starts _ _⟩, creates_starts _⟩,
      requests_starts _ _ _ _⟩, requests_starts _ _ _ _⟩
  have run : ∃ s, (server Bool smallConfig).Reachable (ClientStarts smallConfig)
      (KeepsApart smallConfig) (Server.initial Bool smallConfig) s ∧
        (decide (s.state.store.recorded = [2, 0]) && waitsTest s true .filestack) = true :=
    Machine.Reachable.of_schedule keepsApartTest keepsApart_of_test starts (by decide +kernel)
  obtain ⟨s, reachable, final⟩ := run
  obtain ⟨evicted, waits⟩ := Bool.and_eq_true_iff.mp final
  exact ⟨s, of_decide_eq_true evicted, waits_of_test waits, no_circular_wait reachable⟩

end FileServer
