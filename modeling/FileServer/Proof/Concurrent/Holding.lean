import FileServer.Proof.Concurrent.Creation
import FileServer.Proof.Concurrent.Requests

/-!
# What the workers have in hand, in every run

The owners of the mutexes are those that have taken them, and a record that is not in the table yet is
known only to its maker.
-/

namespace FileServer
open Program

def Hand.has (h : Hand) (f : FileId) : Prop := f ∈ h.refs ∨ .file f ∈ h.locks

structure InHand {W : Type} (cfg : Config) (G : W → Hand) (s : Server W) : Prop where
  owner : ∀ m w, s.owner m = some w ↔ m ∈ (G w).locks
  once : ∀ w, (G w).locks.Nodup
  again : ∀ w, ¬(G w).again
  registered : Registered cfg s.store
  known : ∀ w f, (G w).has f → f < s.store.next
  fresh : ∀ w f, (G w).fresh = some f → f < s.store.next ∧ f ∉ s.store.recorded ∧
    ∀ v, v ≠ w → ¬(G v).has f

section
variable {W : Type} {cfg : Config} {counting : Prop} {w : W} {s s' : Server W} {h : Hand}
  {f : FileId}

/-! ## Operations -/

theorem exec_recorded {o : Op} {x : o.Resp} (registered : Registered cfg s.store)
    (step : Server.exec cfg w o s = .ok (x, s')) (mem : f ∈ s'.store.recorded) :
    f ∈ s.store.recorded ∨ o = .hashTbAdd f := by
  by_cases added : ∃ g, o = .hashTbAdd g
  · obtain ⟨g, rfl⟩ := added
    obtain ⟨file, -, rfl⟩ := exec_hashTbAdd step
    rcases List.mem_cons.mp ((registered.recorded_add file g).mem_iff.mp mem) with rfl | before
    · exact .inr rfl
    · exact .inl before
  · exact .inl ((exec_recorded_sub (fun g same => added ⟨g, same⟩) step).subset mem)

theorem exec_gives {o : Op} {x : o.Resp} (step : Server.exec cfg w o s = .ok (x, s'))
    (gives : o.gives x = some f) :
    f ∈ s.store.recorded ∨
      f = s.store.next ∧ s'.store.next = s.store.next + 1 ∧ s'.store.files f ≠ none := by
  cases o with
  | newFile path =>
      cases step
      cases gives
      refine .inr ⟨rfl, rfl, ?_⟩
      show Function.update s.store.files s.store.next _ s.store.next ≠ none
      rw [Function.update_self]
      exact Option.some_ne_none _
  | hashTbSearch path flag => exact .inl ((exec_hashTbSearch step).1 f gives)
  | stackGetTop path =>
      obtain ⟨name, -, step⟩ := Outcome.andThen_eq_ok.mp step
      obtain ⟨⟨g, stack⟩, scanned, same⟩ := Outcome.andThen_eq_ok.mp step
      cases same
      cases gives
      obtain ⟨name, searched⟩ := FileStack.getTop_found scanned
      obtain ⟨⟨found, σ⟩, searched, same⟩ := Outcome.andThen_eq_ok.mp searched
      cases same
      exact .inl (Store.hashTbSearch_mem searched)
  | _ => cases gives

namespace Hand

theorem after_has {o : Op} {x : o.Resp} (allowed : h.allows cfg counting o)
    (has : (h.after o x).has f) : h.has f ∨ o.gives x = some f := by
  cases o with
  | lock m =>
      rcases has with known | held
      · left
        cases m <;> exact .inl known
      · have taken : m = .file f ∨ .file f ∈ h.locks := by
          cases m <;> simpa [eq_comm, after] using held
        rcases taken with rfl | before
        · exact .inl (.inl (allowed.1 f rfl))
        · exact .inl (.inr before)
  | unlock m =>
      rcases has with known | held
      · exact .inl (.inl known)
      · exact .inl (.inr (List.mem_of_mem_erase held))
  | newFile path =>
      rcases has with known | held
      · rcases known with rfl | before
        · exact .inr rfl
        · exact .inl (.inl before)
      · exact .inl (.inr held)
  | stackGetTop path =>
      rcases has with known | held
      · rcases known with rfl | before
        · exact .inr rfl
        · exact .inl (.inl before)
      · exact .inl (.inr held)
  | hashTbSearch path flag =>
      have either : (h.see x).has f := by cases flag <;> exact has
      rcases either with (before | found) | held
      · exact .inl (.inl before)
      · exact .inr found
      · exact .inl (.inr held)
  | free g =>
      rcases has with known | held
      · exact .inl (.inl known.1)
      · exact .inl (.inr held)
  | store g field =>
      left
      cases field <;> exact has
  | _ => exact .inl has

theorem after_fresh {o : Op} {x : o.Resp} (fresh : (h.after o x).fresh = some f) :
    h.fresh = some f ∧ (∀ g, o ≠ .hashTbAdd g) ∨ (∃ path, o = .newFile path) ∧ o.gives x = some f := by
  cases o with
  | lock m =>
      left
      cases m <;> exact ⟨fresh, nofun⟩
  | newFile path => exact .inr ⟨⟨path, rfl⟩, fresh⟩
  | hashTbAdd g => cases fresh
  | hashTbSearch path flag =>
      left
      cases flag <;> exact ⟨fresh, nofun⟩
  | store g field =>
      left
      cases field <;> exact ⟨fresh, nofun⟩
  | _ => exact .inl ⟨fresh, nofun⟩

theorem after_locks {o : Op} {x : o.Resp} (lock : ∀ m, o ≠ .lock m) (unlock : ∀ m, o ≠ .unlock m) :
    (h.after o x).locks = h.locks := by
  cases o with
  | lock m => exact (lock m rfl).elim
  | unlock m => exact (unlock m rfl).elim
  | hashTbSearch path flag => cases flag <;> rfl
  | store g field => cases field <;> rfl
  | _ => rfl

theorem after_lock_locks (h : Hand) (m : Mutex) : (h.after (.lock m) ()).locks = m :: h.locks := by
  cases m <;> rfl

theorem after_again {o : Op} {x : o.Resp} (lock : ∀ m, o ≠ .lock m) :
    (h.after o x).again = h.again := by
  cases o with
  | lock m => exact (lock m rfl).elim
  | hashTbSearch path flag => cases flag <;> rfl
  | store g field => cases field <;> rfl
  | _ => rfl

end Hand

theorem safe_after {p : Handler Unit} {post : Unit → Hand → Prop} {o : Op}
    {next : o.Resp → Handler Unit} (safe : wp (conduct cfg False) p post h) (action : p = .op o next)
    (x : o.Resp) : wp (conduct cfg False) (next x) post (h.after o x) := by
  rw [action] at safe
  exact safe.2 x _ ⟨expects_uncounted x, rfl⟩

end

/-! ## Runs -/

namespace InHand
variable {W : Type} {cfg : Config} {counting : Prop} {w : W} {s s' : Server W} {G : W → Hand}

theorem initial (cfg : Config) : InHand cfg (fun _ : W => .empty) (Server.initial W cfg) where
  owner _ _ := iff_of_false nofun nofun
  once _ := List.nodup_nil
  again _ := id
  registered := Registered.initial cfg
  known _ _ has := by rcases has with known | held <;> contradiction
  fresh _ _ fresh := nomatch fresh

variable [DecidableEq W]

theorem start (inHand : InHand cfg G s) (idle : (G w).locks = []) :
    InHand cfg (Function.update G w .empty) s := by
  have none (f : FileId) : ¬Hand.empty.has f := by
    rintro (known | held) <;> contradiction
  have unowned (m : Mutex) : s.owner m ≠ some w := by
    intro owned
    rw [inHand.owner, idle] at owned
    cases owned
  refine ⟨fun m => ?_, ?_, ?_, inHand.registered, ?_, ?_⟩
  · exact (Function.forall_update_iff G fun v h => s.owner m = some v ↔ m ∈ h.locks).mpr
      ⟨iff_of_false (unowned m) nofun, fun v _ => inHand.owner m v⟩
  · exact (Function.forall_update_iff G fun _ h => h.locks.Nodup).mpr
      ⟨List.nodup_nil, fun v _ => inHand.once v⟩
  · exact (Function.forall_update_iff G fun _ h => ¬h.again).mpr ⟨id, fun v _ => inHand.again v⟩
  · exact (Function.forall_update_iff G fun _ h => ∀ f, h.has f → f < s.store.next).mpr
      ⟨fun f has => (none f has).elim, fun v _ => inHand.known v⟩
  · intro v f fresh
    have other : v ≠ w := by
      rintro rfl
      rw [Function.update_self] at fresh
      cases fresh
    rw [Function.update_of_ne other] at fresh
    obtain ⟨before, unrecorded, unknown⟩ := inHand.fresh v f fresh
    refine ⟨before, unrecorded, ?_⟩
    exact (Function.forall_update_iff G fun u h => u ≠ v → ¬h.has f).mpr
      ⟨fun _ => none f, fun u _ => unknown u⟩

theorem exec_lock_owner {m : Mutex} (inHand : InHand cfg G s) (free : s.owner m = none) (m' : Mutex)
    (v : W) : (s.setOwner m (some w)).owner m' = some v ↔
      m' ∈ (Function.update G w ((G w).after (.lock m) ()) v).locks := by
  have untaken (v : W) : m ∉ (G v).locks := by
    rw [← inHand.owner, free]
    exact nofun
  revert v
  refine (Function.forall_update_iff G fun v h => _ ↔ m' ∈ h.locks).mpr ⟨?_, fun v other => ?_⟩
  · rw [Hand.after_lock_locks, List.mem_cons, ← inHand.owner]
    by_cases same : m' = m
    · subst same
      simp
    · rw [Server.setOwner_owner_of_ne _ _ same]
      exact (or_iff_right same).symm
  · by_cases same : m' = m
    · subst same
      rw [Server.setOwner_owner_self]
      exact iff_of_false (fun wrong => other (Option.some.inj wrong).symm) (untaken v)
    · rw [Server.setOwner_owner_of_ne _ _ same]
      exact inHand.owner m' v

theorem exec_unlock_owner {m : Mutex} (inHand : InHand cfg G s) (held : m ∈ (G w).locks) (m' : Mutex)
    (v : W) : (s.setOwner m none).owner m' = some v ↔
      m' ∈ (Function.update G w ((G w).after (.unlock m) ()) v).locks := by
  have taken : s.owner m = some w := (inHand.owner m w).mpr held
  revert v
  refine (Function.forall_update_iff G fun v h => _ ↔ m' ∈ h.locks).mpr ⟨?_, fun v other => ?_⟩
  · show _ ↔ m' ∈ (G w).locks.erase m
    rw [(inHand.once w).mem_erase_iff, ← inHand.owner]
    by_cases same : m' = m
    · subst same
      simp
    · rw [Server.setOwner_owner_of_ne _ _ same]
      exact (and_iff_right same).symm
  · by_cases same : m' = m
    · subst same
      rw [Server.setOwner_owner_self, ← inHand.owner, taken]
      exact iff_of_false nofun fun wrong => other (Option.some.inj wrong).symm
    · rw [Server.setOwner_owner_of_ne _ _ same]
      exact inHand.owner m' v

theorem exec_owners {o : Op} {x : o.Resp} (inHand : InHand cfg G s)
    (allowed : (G w).allows cfg counting o) (step : Server.exec cfg w o s = .ok (x, s')) :
    (∀ m v, s'.owner m = some v ↔ m ∈ (Function.update G w ((G w).after o x) v).locks) ∧
      ((G w).after o x).locks.Nodup ∧ ¬((G w).after o x).again := by
  by_cases locks : ∃ m, o = .lock m
  · obtain ⟨m, rfl⟩ := locks
    obtain ⟨-, free, rfl⟩ := exec_lock step
    have untaken : m ∉ (G w).locks := by
      rw [← inHand.owner, free]
      exact nofun
    refine ⟨inHand.exec_lock_owner free, ?_, ?_⟩
    · rw [Hand.after_lock_locks]
      exact List.nodup_cons.mpr ⟨untaken, inHand.once w⟩
    · cases m with
      | file f =>
          rintro (before | held)
          · exact inHand.again w before
          · exact untaken held
      | _ => exact inHand.again w
  have lock (m : Mutex) : o ≠ .lock m := fun same => locks ⟨m, same⟩
  by_cases unlocks : ∃ m, o = .unlock m
  · obtain ⟨m, rfl⟩ := unlocks
    cases exec_unlock step
    exact ⟨inHand.exec_unlock_owner allowed.2, (inHand.once w).erase m, inHand.again w⟩
  have unlock (m : Mutex) : o ≠ .unlock m := fun same => unlocks ⟨m, same⟩
  rw [exec_owner lock unlock step, Hand.after_again lock]
  refine ⟨fun m => ?_, ?_, inHand.again w⟩
  · refine (Function.forall_update_iff G fun v h => s.owner m = some v ↔ m ∈ h.locks).mpr
      ⟨?_, fun v _ => inHand.owner m v⟩
    rw [Hand.after_locks lock unlock]
    exact inHand.owner m w
  · rw [Hand.after_locks lock unlock]
    exact inHand.once w

theorem exec_has {o : Op} {x : o.Resp} {v : W} {f : FileId} (allowed : (G w).allows cfg counting o)
    (has : (Function.update G w ((G w).after o x) v).has f) :
    (G v).has f ∨ v = w ∧ o.gives x = some f := by
  by_cases same : v = w
  · subst same
    rw [Function.update_self] at has
    exact (Hand.after_has allowed has).imp_right fun gives => ⟨rfl, gives⟩
  · rw [Function.update_of_ne same] at has
    exact .inl has

theorem exec_fresh {o : Op} {x : o.Resp} {v : W} {f : FileId}
    (fresh : (Function.update G w ((G w).after o x) v).fresh = some f) :
    (G v).fresh = some f ∧ (v = w → ∀ g, o ≠ .hashTbAdd g) ∨
      v = w ∧ (∃ path, o = .newFile path) ∧ o.gives x = some f := by
  by_cases same : v = w
  · subst same
    rw [Function.update_self] at fresh
    rcases Hand.after_fresh fresh with ⟨before, notAdded⟩ | ⟨new, gives⟩
    · exact .inl ⟨before, fun _ => notAdded⟩
    · exact .inr ⟨rfl, new, gives⟩
  · rw [Function.update_of_ne same] at fresh
    exact .inl ⟨fresh, fun wrong => (same wrong).elim⟩

theorem exec {o : Op} {x : o.Resp} (inHand : InHand cfg G s)
    (allowed : (G w).allows cfg counting o) (step : Server.exec cfg w o s = .ok (x, s')) :
    InHand cfg (Function.update G w ((G w).after o x)) s' := by
  obtain ⟨owner, once, again⟩ := inHand.exec_owners allowed step
  have later := exec_next step
  refine ⟨owner, ?_, ?_, inHand.registered.exec step, fun v f has => ?_, fun v f fresh => ?_⟩
  · exact (Function.forall_update_iff G fun _ h => h.locks.Nodup).mpr
      ⟨once, fun v _ => inHand.once v⟩
  · exact (Function.forall_update_iff G fun _ h => ¬h.again).mpr ⟨again, fun v _ => inHand.again v⟩
  · rcases exec_has allowed has with before | ⟨-, gives⟩
    · exact (inHand.known v f before).trans_le later
    · rcases exec_gives step gives with recorded | ⟨rfl, next, -⟩
      · exact (inHand.registered.known f recorded).trans_le later
      · rw [next]
        exact Nat.lt_succ_self _
  · rcases exec_fresh fresh with ⟨before, notAdded⟩ | ⟨rfl, ⟨path, rfl⟩, gives⟩
    · obtain ⟨lt, unrecorded, unknown⟩ := inHand.fresh v f before
      refine ⟨lt.trans_le later, fun mem => ?_, fun u other hasNow => ?_⟩
      · rcases exec_recorded inHand.registered step mem with mem | rfl
        · exact unrecorded mem
        · by_cases same : v = w
          · exact notAdded same f rfl
          · exact unknown w (Ne.symm same) (.inl (allowed.1 f rfl))
      · rcases exec_has allowed hasNow with hadBefore | ⟨-, gives⟩
        · exact unknown u other hadBefore
        · rcases exec_gives step gives with recorded | ⟨rfl, -⟩
          · exact unrecorded recorded
          · exact Nat.lt_irrefl _ lt
    · cases step
      cases gives
      refine ⟨Nat.lt_succ_self _, fun mem => ?_, fun u other hasNow => ?_⟩
      · exact Nat.lt_irrefl _ (inHand.registered.known _ mem)
      · rw [Function.update_of_ne other] at hasNow
        exact Nat.lt_irrefl _ (inHand.known u _ hasNow)

end InHand

end FileServer
