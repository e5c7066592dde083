import FileServer.Proof.Sequential.Admission
import FileServer.Proof.Sequential.ReadMany
import FileServer.Program.Coincide

/-!
# The random order

Which orders of the names `arrayRandomPermutation` can return, and which files `fileNRead` can send first.
-/

namespace FileServer
open Program

/-- The results for all values of `rand` are the orders of the array. -/
def ReachesEveryOrder {W : Type} (cfg : Config) (w : W) (names : List Path) (t : Server W) : Prop :=
  ∀ order : List Path,
    (∃ rand t', (server W cfg).run w (arrayRandomPermutation rand names.length) t = .ok (order, t')) ↔
      order.Perm names

/-- The run writes a size, with which the data of a file starts, while it holds the mutex of `f`. -/
def Sending {W α : Type} (cfg : Config) (w : W) (fd : Nat) (f : FileId) (p : Handler α) (s : Server W) : Prop :=
  ∃ size t, (server W cfg).Visits w p s (.writeNB fd (.sizeT size)) t ∧ t.owner (.file f) = some w

def Op.headless : Op → Bool
  | .writeNB _ (.sizeT _) => false
  | _ => true

/-- The file has a name on the stack that is whole in its copy, and not the lowest of several. -/
def Store.Drawable (cfg : Config) (σ : Store) (f : FileId) : Prop :=
  ∃ i name file, (σ.liveNames cfg)[i]? = some name ∧ name.length < posixPathMax ∧
    σ.lookup cfg name = .ok (some f) ∧ σ.files f = some file ∧ fileShortenName file.abspath ≠ none ∧
    (i = 0 → (σ.liveNames cfg).length = 1)

section
variable {W α β : Type} {cfg : Config} {w : W} {s s' t : Server W} {σ : Store} {f : FileId} {name : Path}
  {names : List Path} {rand : Nat → Nat} {i j m : Nat}

/-! ## Positions under the shuffle -/

theorem length_swap (names : List Path) (i j : Nat) : (swap names i j).length = names.length := by
  simp [swap]

theorem swap_of_ne {p : Nat} (first : p ≠ i) (second : p ≠ j) : (swap names i j)[p]? = names[p]? := by
  simp [swap, first.symm, second.symm]

theorem swap_left (first : i < names.length) (second : j < names.length) :
    (swap names i j)[i]? = names[j]? := by
  by_cases same : j = i
  · subst same
    simp [swap, first, List.getD]
  · simp [swap, same, first, second, List.getD]

theorem swap_right (first : i < names.length) (second : j < names.length) :
    (swap names i j)[j]? = names[i]? := by
  simp [swap, first, second, List.getD]

theorem shuffle_above {p : Nat} (above : m < p) : (shuffle rand m names)[p]? = names[p]? := by
  induction m generalizing names with
  | zero => rfl
  | succ m ih =>
      have below : rand (m + 1) % (m + 1) < m + 1 := Nat.mod_lt _ (Nat.succ_pos m)
      rw [shuffle, ih (Nat.lt_of_succ_lt above), swap_of_ne (Nat.ne_of_gt above) (by omega)]

theorem shuffle_taken (nodup : names.Nodup) (inside : m + 1 < names.length)
    (lowest : rand (m + 1) % (m + 1) = 0) : (shuffle rand (m + 1) names)[0]? ≠ names[0]? := by
  have swapped : (swap names (m + 1) 0).Perm names := swap_perm inside (by omega)
  have inside' : m ≤ (swap names (m + 1) 0).length - 1 := by
    rw [swapped.length_eq]
    omega
  have permuted := (shuffle_perm rand m inside').trans swapped
  have gone : (shuffle rand m (swap names (m + 1) 0))[m + 1]? = names[0]? := by
    rw [shuffle_above (Nat.lt_succ_self m), swap_left inside (by omega)]
  have longer : 0 < (shuffle rand m (swap names (m + 1) 0)).length := by
    rw [permuted.length_eq]
    omega
  rw [shuffle, lowest]
  intro same
  cases (List.getElem?_inj longer (permuted.nodup_iff.mpr nodup)).mp (same.trans gone.symm)

theorem shuffle_lowest (nodup : names.Nodup) (inside : m + 1 < names.length) :
    (shuffle rand (m + 1) names)[0]? ≠ names[0]? := by
  induction m generalizing names with
  | zero => exact shuffle_taken nodup inside (Nat.mod_one _)
  | succ m ih =>
      by_cases lowest : rand (m + 2) % (m + 2) = 0
      · exact shuffle_taken nodup inside lowest
      · have below : rand (m + 2) % (m + 2) < m + 2 := Nat.mod_lt _ (Nat.succ_pos (m + 1))
        have swapped : (swap names (m + 2) (rand (m + 2) % (m + 2))).Perm names :=
          swap_perm inside (by omega)
        have stays : (swap names (m + 2) (rand (m + 2) % (m + 2)))[0]? = names[0]? :=
          swap_of_ne (by omega) (by omega)
        have later := ih (swapped.nodup_iff.mpr nodup) (by
          rw [swapped.length_eq]
          omega)
        rw [stays] at later
        exact later

theorem shuffle_second (zeros : ∀ k ≤ m + 1, rand k = 0) (inside : m + 1 < names.length) :
    (shuffle rand (m + 1) names)[0]? = names[1]? := by
  induction m generalizing names with
  | zero =>
      rw [shuffle, Nat.mod_one, shuffle]
      exact swap_right inside (by omega)
  | succ m ih =>
      rw [shuffle, zeros (m + 2) (Nat.le_refl _), Nat.zero_mod, ih (fun k small => zeros k (by omega)) (by
        rw [length_swap]
        omega)]
      exact swap_of_ne (by omega) (by omega)

theorem shuffle_reaches (first : 0 < i) (upto : i ≤ m) (inside : m < names.length) :
    (shuffle (fun k => if k = i then 1 else 0) m names)[0]? = names[i]? := by
  induction m generalizing names with
  | zero => omega
  | succ m ih =>
      rw [shuffle]
      by_cases here : m + 1 = i
      · subst here
        rw [if_pos rfl]
        cases m with
        | zero =>
            rw [Nat.mod_one, shuffle]
            exact swap_right inside (by omega)
        | succ m =>
            rw [Nat.one_mod, shuffle_second (fun k small => if_neg (by omega)) (by
              rw [length_swap]
              omega)]
            exact swap_right inside (by omega)
      · rw [if_neg here, Nat.zero_mod, ih (by omega) (by
          rw [length_swap]
          omega)]
        exact swap_of_ne (by omega) (by omega)

/-! ## The orders -/

theorem run_arrayRandomPermutation (rand : Nat → Nat) {back : List (Option Path)}
    (stack : t.store.fstack.stack = names.map some ++ back) :
    (server W cfg).run w (arrayRandomPermutation rand names.length) t =
      .ok (shuffle rand (names.length - 1) names, t) := by
  have copied := run_arrayCopy cfg w names [] back stack
  rw [List.length_nil] at copied
  rw [arrayRandomPermutation, Machine.run_bind_of copied]
  rfl

theorem reaches_iff {back : List (Option Path)} (some : names ≠ []) (nodup : names.Nodup)
    (stack : t.store.fstack.stack = names.map Option.some ++ back) :
    ReachesEveryOrder cfg w names t ↔ names.length = 1 := by
  have positive := List.length_pos_iff.mpr some
  constructor
  · intro reaches
    obtain ⟨rand, t', ran⟩ := (reaches names).mpr (.refl names)
    rw [run_arrayRandomPermutation rand stack] at ran
    cases length : names.length with
    | zero => omega
    | succ n =>
        cases n with
        | zero => rfl
        | succ m =>
            rw [length, Nat.add_sub_cancel] at ran
            have same := (Prod.mk.inj (Outcome.ok.inj ran)).1
            exact absurd (congrArg (·[0]?) same) (shuffle_lowest nodup (by omega))
  · intro one order
    obtain ⟨name, rfl⟩ := List.length_eq_one_iff.mp one
    rw [List.perm_singleton]
    constructor
    · rintro ⟨rand, t', ran⟩
      rw [run_arrayRandomPermutation rand stack] at ran
      cases ran
      rfl
    · rintro rfl
      exact ⟨fun _ => 0, t, run_arrayRandomPermutation _ stack⟩

/-! ## What is sent -/

theorem mute_fileStackDefragLoop (n i last : Nat) : (fileStackDefragLoop n i last).All (·.mute = true) := by
  induction n generalizing i last with
  | zero => trivial
  | succ n ih =>
      unfold fileStackDefragLoop
      refine (mute_call rfl).bind fun cell => ?_
      cases cell with
      | none => exact ih ..
      | some name =>
          refine (mute_hashGetFile _ _).bind fun found => ?_
          cases found with
          | none => exact (mute_call rfl).bind fun _ => ih ..
          | some f => exact (mute_call rfl).bind fun _ => ih ..

theorem mute_arrayCopy (n i : Nat) : (arrayCopy n i).All (·.mute = true) := by
  refine (all_arrayCopy n i).mono fun o copies => ?_
  obtain rfl | ⟨i, rfl⟩ := copies <;> rfl

theorem mute_fileStackDefrag : fileStackDefrag.All (·.mute = true) :=
  (mute_call rfl).bind fun _ => (mute_call rfl).bind fun _ => (mute_fileStackDefragLoop ..).bind fun _ =>
    (mute_call rfl).bind fun _ => mute_call rfl

theorem mute_fileNReadStart (n : Int) (rand : Nat → Nat) : (fileNReadStart n rand).All (·.mute = true) :=
  mute_fileStackDefrag.bind fun _ => (mute_call rfl).bind fun _ => (mute_call rfl).bind fun _ =>
    ((mute_arrayCopy ..).bind fun _ => all_pure _).bind fun _ => (mute_call rfl).bind fun _ =>
      .ite (((mute_call rfl).bind fun _ => all_pure _).bind fun _ => all_pure _) (all_pure _)

theorem sending_bind {fd : Nat} {p : Handler α} (k : α → Handler β) :
    Sending cfg w fd f (p >>= k) s ↔ Sending cfg w fd f p s ∨
      ∃ a s', (server W cfg).run w p s = .ok (a, s') ∧ Sending cfg w fd f (k a) s' := by
  constructor
  · rintro ⟨size, t, visits, held⟩
    rcases (Machine.visits_bind k).mp visits with now | ⟨a, s', ran, later⟩
    · exact .inl ⟨size, t, now, held⟩
    · exact .inr ⟨a, s', ran, size, t, later, held⟩
  · rintro (⟨size, t, now, held⟩ | ⟨a, s', ran, size, t, later, held⟩)
    · exact ⟨size, t, (Machine.visits_bind k).mpr (.inl now), held⟩
    · exact ⟨size, t, (Machine.visits_bind k).mpr (.inr ⟨a, s', ran, later⟩), held⟩

theorem not_sending {fd : Nat} {p : Handler α} (headless : p.All (·.headless = true)) :
    ¬Sending cfg w fd f p s := by
  rintro ⟨size, t, visits, -⟩
  cases Machine.visits_all headless visits

theorem sending_skip {fd : Nat} {p : Handler α} {a : α} (headless : p.All (·.headless = true))
    (ran : (server W cfg).run w p s = .ok (a, s')) (k : α → Handler β) :
    Sending cfg w fd f (p >>= k) s ↔ Sending cfg w fd f (k a) s' := by
  rw [sending_bind, ran]
  constructor
  · rintro (now | ⟨a', s'', same, later⟩)
    · exact absurd now (not_sending headless)
    · cases same
      exact later
  · exact fun later => .inr ⟨a, s', rfl, later⟩

theorem headless_of_mute {p : Handler α} (mute : p.All (·.mute = true)) : p.All (·.headless = true) :=
  mute.mono fun o mute => by
    cases o with
    | writeNB fd msg => cases mute
    | _ => rfl

theorem headless_call {o : Op} (headless : o.headless = true) : (call o).All (·.headless = true) :=
  (all_perform o).mpr headless

theorem headless_sendPages (fd : Nat) (f : FileId) (n i : Nat) :
    (sendPages cfg fd f n i).All (·.headless = true) := by
  induction n generalizing i with
  | zero => trivial
  | succ n ih =>
      unfold sendPages
      refine (headless_call rfl).bind fun file => ?_
      cases file.pages[i]? with
      | none => exact ⟨rfl, fun x => x.elim⟩
      | some page => exact (headless_call rfl).bind fun _ => (headless_call rfl).bind fun _ => ih _

theorem Idle.sending_sendFile (idle : Idle cfg s) (fd : Nat) {file : MemFile} {g : FileId}
    (found : s.store.files f = some file) : Sending cfg w fd g (sendFile cfg fd f) s ↔ g = f := by
  obtain ⟨locked, -⟩ := idle.relock w found
  have loaded : (server W cfg).run w (load f) (s.setOwner (.file f) (some w)) =
      .ok (file, s.setOwner (.file f) (some w)) := run_load found
  unfold sendFile
  rw [sending_skip (p := lock (.file f)) (headless_call rfl) locked,
    sending_skip (p := load f) (headless_call rfl) loaded]
  constructor
  · rintro ⟨size, t, visits, held⟩
    have owned : t = s.setOwner (.file f) (some w) := by
      rcases (Machine.visits_bind _).mp visits with now | ⟨_, s', ran, later⟩
      · rcases Machine.visits_op.mp now with ⟨-, rfl⟩ | ⟨x, s', -, none⟩
        · rfl
        · cases none
      · refine absurd ⟨size, t, later, held⟩ (not_sending (.ite ((headless_sendPages ..).bind fun _ => ?_)
          (headless_call rfl)))
        cases file.pages[file.pagesN - 1]? with
        | none => exact ⟨rfl, nofun⟩
        | some page => exact (headless_call rfl).bind fun _ => (headless_call rfl).bind fun _ =>
            headless_call rfl
    by_contra other
    rw [owned, Server.setOwner_owner_of_ne _ _ (by simpa using other), idle.unlocked] at held
    cases held
  · rintro rfl
    exact ⟨file.size, _, (Machine.visits_bind _).mpr (.inl .here), Server.setOwner_owner_self ..⟩

theorem Idle.sending_sendNamed (idle : Idle cfg s) (fd : Nat) {file : MemFile} {g : FileId}
    (found : s.store.files f = some file) :
    Sending cfg w fd g (sendNamed cfg fd (some f)) s ↔ g = f ∧ fileShortenName file.abspath ≠ none := by
  obtain ⟨locked, -⟩ := idle.relock w found
  have loaded : (server W cfg).run w (load f) (s.setOwner (.file f) (some w)) =
    .ok (file, s.setOwner (.file f) (some w)) := run_load found
  rw [sendNamed, sending_skip (p := lock (.file f)) (headless_call rfl) locked,
    sending_skip (p := load f) (headless_call rfl) loaded]
  cases fileShortenName file.abspath with
  | none => exact iff_of_false (not_sending ⟨rfl, fun x => x.elim⟩) fun named => named.2 rfl
  | some base =>
      have idle' := (idle.send fd (.int (base.length + 1))).send fd (.bytes (base ++ [0]))
      have unlocked : (server W cfg).run w (unlock (.file f))
          (((s.setOwner (.file f) (some w)).send fd (.int (base.length + 1))).send fd
            (.bytes (base ++ [0]))) = .ok ((), _) := (idle'.relock w found).2
      dsimp only
      rw [sending_skip (p := writeNB fd (.int (base.length + 1))) (headless_call rfl) (run_writeNB fd _),
        sending_skip (p := writeNB fd (.bytes (base ++ [0]))) (headless_call rfl) (run_writeNB fd _),
        sending_skip (p := unlock (.file f)) (headless_call rfl) unlocked, idle'.sending_sendFile fd found]
      exact (and_iff_left (by simp)).symm

theorem Idle.sending_fileNReadLoop (idle : Idle cfg s) (w : W) (fd n : Nat) {g : FileId}
    (inside : i < s.store.fstack.top) (entry : names[i]? = some name) :
    Sending cfg w fd g (fileNReadLoop cfg fd names (n + 1) i) s ↔
      (∃ file, name.length < posixPathMax ∧ s.store.lookup cfg name = .ok (some g) ∧
        s.store.files g = some file ∧ fileShortenName file.abspath ≠ none) ∨
      ∃ msgs, nameReply cfg s.store name = .ok msgs ∧
        Sending cfg w fd g (fileNReadLoop cfg fd names n (i + 1)) (s.sendAll fd msgs) := by
  have top : (server W cfg).run w (call (.stackTop .null)) s = .ok (s.store.fstack.top, s) := rfl
  have searches := headless_of_mute (mute_hashGetFile (.copy name) .src)
  rw [fileNReadLoop_succ, nameReply, sending_skip (headless_call rfl) top, if_pos inside]
  simp only [entry]
  by_cases long : posixPathMax ≤ name.length
  · rw [if_pos long, sending_bind, idle.run_hashGetCopy_long w long]
    refine iff_of_false ?_ ?_
    · rintro (now | ⟨a, s', ran, -⟩)
      · exact not_sending searches now
      · cases ran
    · rintro (⟨file, short, -⟩ | ⟨msgs, wrong, -⟩)
      · exact Nat.not_lt.mpr long short
      · cases wrong
  have short := Nat.not_le.mp long
  rw [if_neg long]
  rcases idle.lookup name with missing | ⟨f, file, searched, mem, found⟩
  · rw [sending_skip searches (idle.run_hashGetCopy w short missing), missing]
    simp [Server.sendAll, sendNamed]
  · rw [sending_skip searches (idle.run_hashGetCopy w short searched), searched, sending_bind,
      idle.sending_sendNamed fd found, idle.run_sendNamed w fd mem found]
    simp only [Outcome.andThen_ok, found]
    refine or_congr ?_ ?_
    · constructor
      · rintro ⟨rfl, named⟩
        exact ⟨file, short, rfl, found, named⟩
      · rintro ⟨file', -, same, found', named⟩
        cases same
        cases found.symm.trans found'
        exact ⟨rfl, named⟩
    · cases fileShortenName file.abspath <;> simp

theorem Idle.sending_fileNRead (idle : Idle cfg s) (bounded : s.store.fstack.Bounded cfg) (w : W) (fd n : Nat)
    (rand : Nat → Nat) {g : FileId} (named : s.store.liveNames cfg = names) :
    Sending cfg w fd g (fileNRead cfg fd n rand) s ↔
      Sending cfg w fd g (fileNReadLoop cfg fd (shuffle rand (names.length - 1) names)
        (if n = 0 then names.length else n) 0) (s.setStack (s.store.fstack.holding names)) := by
  have started := idle.run_fileNReadStart bounded w n rand named
  have headless := headless_of_mute (mute_fileNReadStart n rand)
  rw [fileNRead_split, sending_skip headless started]
  dsimp only
  rw [toNat_asked, sending_bind]
  refine or_iff_left ?_
  rintro ⟨_, s', -, last⟩
  exact not_sending (headless_call rfl) last

theorem liveNames_nodup (cfg : Config) (σ : Store) : (σ.liveNames cfg).Nodup := by
  refine (liveNames_distinct σ).imp fun {a b} apart same => ?_
  subst same
  simp [strncmpEq] at apart

def Store.LeadsFirst (cfg : Config) (σ : Store) (f : FileId) (names : List Path) : Prop :=
  ∃ name file, names[0]? = some name ∧ name.length < posixPathMax ∧ σ.lookup cfg name = .ok (some f) ∧
    σ.files f = some file ∧ fileShortenName file.abspath ≠ none

theorem Idle.sending_first (idle : Idle cfg s) (w : W) (fd n : Nat) (top : s.store.fstack.top = names.length)
    (leads : s.store.LeadsFirst cfg f names) :
    Sending cfg w fd f (fileNReadLoop cfg fd names (n + 1) 0) s := by
  obtain ⟨name, file, entry, leads⟩ := leads
  obtain ⟨inside, -⟩ := List.getElem?_eq_some_iff.mp entry
  exact (idle.sending_fileNReadLoop w fd n (top ▸ inside) entry).mpr (.inl ⟨file, leads⟩)

theorem Idle.sending_only (idle : Idle cfg s) (w : W) (fd : Nat) (top : s.store.fstack.top = names.length)
    (sending : Sending cfg w fd f (fileNReadLoop cfg fd names 1 0) s) : s.store.LeadsFirst cfg f names := by
  by_cases inside : 0 < names.length
  · have entry := List.getElem?_eq_getElem inside
    rcases (idle.sending_fileNReadLoop w fd 0 (top ▸ inside) entry).mp sending with
      ⟨file, leads⟩ | ⟨msgs, -, later⟩
    · exact ⟨names[0], file, entry, leads⟩
    · exact absurd later (not_sending trivial)
  · have read : (server W cfg).run w (call (.stackTop .null)) s = .ok (s.store.fstack.top, s) := rfl
    rw [fileNReadLoop, sending_skip (headless_call rfl) read, if_neg (top ▸ inside)] at sending
    exact absurd sending (not_sending trivial)

/-- Which files can be sent whatever their number is. -/
theorem drawable_iff (served : Served W cfg (fun _ _ => True) s) (w : W) (fd : Nat) (f : FileId) :
    (∀ n : Nat, 0 < n → ∃ rand, Sending cfg w fd f (fileNRead cfg fd n rand) s) ↔
      s.store.Drawable cfg f := by
  have nodup := liveNames_nodup cfg s.store
  unfold Store.Drawable
  obtain ⟨names, named⟩ : ∃ names, s.store.liveNames cfg = names := ⟨_, rfl⟩
  have idle := served.idle
  have idle' : Idle cfg (s.setStack (s.store.fstack.holding names)) := (Quiet.setStack s _).idle idle
  have top (rand : Nat → Nat) : (s.setStack (s.store.fstack.holding names)).store.fstack.top =
      (shuffle rand (names.length - 1) names).length := (length_shuffle rand names).symm
  rw [named] at nodup ⊢
  constructor
  · intro all
    obtain ⟨rand, sending⟩ := all 1 Nat.one_pos
    have looped := (idle.sending_fileNRead served.bounded w fd 1 rand named).mp sending
    rw [if_neg Nat.one_ne_zero] at looped
    obtain ⟨name, file, entry, short, searched, found, base⟩ := idle'.sending_only w fd (top rand) looped
    rw [Server.lookup_setStack] at searched
    have mem := (shuffle_perm rand _ (Nat.le_refl _)).subset (List.mem_of_getElem? entry)
    obtain ⟨i, here⟩ := List.mem_iff_getElem?.mp mem
    refine ⟨i, name, file, here, short, searched, found, base, ?_⟩
    rintro rfl
    by_contra several
    have positive : 0 < names.length := List.length_pos_of_mem mem
    obtain ⟨m, length⟩ : ∃ m, names.length = m + 2 := ⟨names.length - 2, by omega⟩
    rw [length] at entry
    exact shuffle_lowest nodup (by omega) (entry.trans here.symm)
  · rintro ⟨i, name, file, here, short, searched, found, base, lowest⟩ n positive
    obtain ⟨n, rfl⟩ := Nat.exists_eq_add_one.mpr positive
    obtain ⟨inside, -⟩ := List.getElem?_eq_some_iff.mp here
    have first : (shuffle (fun k => if k = i then 1 else 0) (names.length - 1) names)[0]? = some name := by
      by_cases zero : i = 0
      · rw [lowest zero]
        rw [zero] at here
        exact here
      · rw [shuffle_reaches (Nat.pos_of_ne_zero zero) (by omega) (by omega)]
        exact here
    refine ⟨fun k => if k = i then 1 else 0, (idle.sending_fileNRead served.bounded w fd _ _ named).mpr ?_⟩
    rw [if_neg (Nat.succ_ne_zero n)]
    exact idle'.sending_first w fd n (top _)
      ⟨name, file, first, short, by rwa [Server.lookup_setStack], found, base⟩

/-- The shuffle reaches every order of a single name only; a file that is on the stack can be sent whatever
the number exactly if its name is not the lowest of several. -/
theorem random_order (cfg : Config) (w : W) :
    (∀ (t : Server W) (names : List Path) back, names ≠ [] → names.Nodup →
      (∀ name ∈ names, name.length < posixPathMax) → t.store.fstack.stack = names.map some ++ back →
      (ReachesEveryOrder cfg w names t ↔ names.length = 1)) ∧
    ∀ (s : Server W) fd, Served W cfg (fun _ _ => True) s →
      ((∀ f ∈ s.store.recorded, s.store.holdsPages f = true → ∀ n : Nat, 0 < n →
          ∃ rand, Sending cfg w fd f (fileNRead cfg fd n rand) s) ↔
        ∀ f ∈ s.store.recorded, s.store.holdsPages f = true → s.store.Drawable cfg f) := by
  refine ⟨fun t names back some nodup _ stack => reaches_iff some nodup stack, fun s fd served => ?_⟩
  have each (f : FileId) := drawable_iff served w fd f
  simp only [each]

end

/-- Of two files the one written first is never the first in the answer. -/
theorem misses_orders :
    ¬ReachesEveryOrder smallConfig () [[97], [98]] (reached smallConfig 5 twoFiles) ∧
    Served Unit smallConfig (fun _ _ => True) (reached smallConfig 5 twoFiles) ∧
    (reached smallConfig 5 twoFiles).store.holdsPages 0 = true ∧
    ¬∀ n : Nat, 0 < n → ∃ rand, Sending smallConfig () 0 0 (fileNRead smallConfig 0 n rand)
      (reached smallConfig 5 twoFiles) := by
  have served : Served Unit smallConfig (fun _ _ => True) (reached smallConfig 5 twoFiles) :=
    served_reached (by simp [twoFiles, deletedFile, Request.WellFormed]) (fun _ _ _ => trivial)
      (by decide +kernel)
  have names : (reached smallConfig 5 twoFiles).store.liveNames smallConfig = [[97], [98]] := by
    decide +kernel
  have stack : (reached smallConfig 5 twoFiles).store.fstack.stack =
      [[97], [98]].map some ++ [none] := by decide +kernel
  refine ⟨?_, served, by decide +kernel, ?_⟩
  · rw [reaches_iff (by decide) (by decide) stack]
    decide
  · rw [drawable_iff served () 0 0]
    rintro ⟨i, name, file, here, -, searched, -, -, lowest⟩
    rw [names] at here lowest
    rcases i with _ | _ | i
    · cases lowest rfl
    · cases here
      have other : (reached smallConfig 5 twoFiles).store.lookup smallConfig [98] = .ok (some 1) := by
        decide +kernel
      cases other.symm.trans searched
    · cases here

theorem random_order_example : ReachesEveryOrder smallConfig () [[97]] (reached smallConfig 5 onceSix) ∧
    ∃ rand, Sending smallConfig () 0 0 (fileNRead smallConfig 0 (1 : Nat) rand) (reached smallConfig 5 onceSix) := by
  have served : Served Unit smallConfig (fun _ _ => True) (reached smallConfig 5 onceSix) :=
    served_reached (by simp [onceSix, Request.WellFormed]) (fun _ _ _ => trivial) (by decide +kernel)
  have names : (reached smallConfig 5 onceSix).store.liveNames smallConfig = [[97]] := by decide +kernel
  have recorded : (reached smallConfig 5 onceSix).store.recorded = [0] := by decide +kernel
  obtain ⟨orders, sends⟩ := random_order smallConfig ()
  refine ⟨(orders _ [[97]] [none, none] (by decide) (by decide) (by decide) (by decide +kernel)).mpr rfl, ?_⟩
  refine (sends _ 0 served).mpr (fun f mem _ => ?_) 0 (by simp [recorded]) (by decide +kernel) 1 Nat.one_pos
  rw [recorded] at mem
  obtain rfl := List.mem_singleton.mp mem
  exact ⟨0, [97], ⟨[3, 2], 2, [97], 6, [7]⟩, by rw [names]; rfl, by decide, by decide +kernel,
    by decide +kernel, by decide +kernel, fun _ => by rw [names]; rfl⟩

end FileServer
