import FileServer.Proof.Sequential.Counter

/-!
# The bounds of the stack of names

Where the top stays, and which accesses to the array are inside it, at every operation of every request.
-/

namespace FileServer
open Program

structure FileStack.Bounded (cfg : Config) (s : FileStack) : Prop where
  max : s.max = cfg.fileMax * 2 - 1
  top : s.top ≤ s.max
  length : s.stack.length = s.max

def Op.allocates : Op → Bool
  | .writeNB _ _ => false
  | o => o.bare

/-- The operation stays inside the array of the stack, and compares no `NULL`. -/
def inBounds {W : Type} (cfg : Config) (w : W) (t : Server W) : Op → Bool
  | .stackPush _ => t.store.fstack.top < t.store.fstack.max
  | .stackDedup i | .stackClear i => i < t.store.fstack.max
  | .stackMove last i => last < t.store.fstack.max && i < t.store.fstack.max
  | .stackGetTop str => match Server.exec cfg w (.stackGetTop str) t with
      | .fault .stackIndex | .fault .nullString => false
      | _ => true
  | _ => true

/-- A scan comes to a recorded name: one below the top, and not in the uppermost cell if that is passed
over; and the uppermost cell is no hole if it is compared. -/
def ScanStops {W : Type} (cfg : Config) (t : Server W) : Op → Prop
  | .stackGetTop str => ∀ path, t.readStr str = .ok path → t.store.fstack.Comparable path ∧
      ∃ i name f, t.store.Lists cfg i name f ∧
        (i + 1 = t.store.fstack.top → t.store.fstack.foundSelf path = false)
  | _ => True

section
variable {W α : Type} {cfg : Config} {w : W} {s t t' : Server W} {f : FileId}

/-! ## Operations on the stack -/

theorem bounded_initial (W : Type) (cfg : Config) :
    (Server.initial W cfg).store.fstack.Bounded cfg :=
  ⟨rfl, Nat.zero_le _, List.length_replicate⟩

theorem FileStack.Bounded.getTop {search : Path → Outcome Fault (Option FileId)} {stack stack' : FileStack}
    {path : Option Path} (bounded : stack.Bounded cfg)
    (chosen : stack.getTop search path = .ok (f, stack')) : stack'.Bounded cfg := by
  obtain ⟨-, i, scanned, rfl⟩ := getTop_eq_scan.mp chosen
  have below := (scanDown_found scanned).1
  refine ⟨bounded.max, ?_, (List.length_set ..).trans bounded.length⟩
  show (if _ then stack.top else i) ≤ stack.max
  have inside : stack.scanned path ≤ stack.top := by
    unfold FileStack.scanned
    split
    · exact Nat.sub_le _ _
    · exact Nat.le_refl _
  split
  · exact bounded.top
  · exact Nat.le_trans (Nat.le_of_lt (Nat.lt_of_lt_of_le below inside)) bounded.top

theorem exec_flat {o : Op} {x : o.Resp} (flat : o.flat = true)
    (step : Server.exec cfg w o t = .ok (x, t')) : t'.store.fstack = t.store.fstack ∨
      ∃ str path f, o = .stackGetTop str ∧ t.readStr str = .ok path ∧
        t.store.fstack.getTop (t.store.lookup cfg) path = .ok (f, t'.store.fstack) := by
  cases o with
  | stackPush name | stackDedup i | stackMove last i | stackClear i | stackSetTop top => cases flat
  | lock m =>
      obtain ⟨-, -, rfl⟩ := exec_lock step
      exact .inl rfl
  | unlock m =>
      cases exec_unlock step
      exact .inl rfl
  | abort e | spin => cases step
  | load f | store f field | free f | hashTbAdd f =>
      obtain ⟨file, -, same⟩ := Server.onFile_eq_ok.mp step
      cases same
      exact .inl rfl
  | hashTbSearch path flag =>
      obtain ⟨-, table, rfl, -⟩ := exec_hashTbSearch step
      exact .inl rfl
  | pageTake | fileNIncrease max | memRead page size | stackCell i =>
      simp only [Server.exec] at step
      split at step <;> cases step <;> exact .inl rfl
  | memcpy page offset input size =>
      obtain ⟨t₁, copied, same⟩ := Outcome.andThen_eq_ok.mp step
      cases same
      simp only [Server.memcpy] at copied
      split at copied
      · cases copied
      · split at copied
        · cases copied
        · cases copied
          exact .inl rfl
  | stackGetTop str =>
      obtain ⟨path, read, step⟩ := Outcome.andThen_eq_ok.mp step
      obtain ⟨⟨f, stack⟩, chosen, same⟩ := Outcome.andThen_eq_ok.mp step
      cases same
      exact .inr ⟨str, path, _, rfl, read, chosen⟩
  | _ =>
      cases step
      exact .inl rfl

theorem FileStack.Bounded.flat {o : Op} {x : o.Resp} (bounded : t.store.fstack.Bounded cfg)
    (flat : o.flat = true) (step : Server.exec cfg w o t = .ok (x, t')) :
    t'.store.fstack.Bounded cfg := by
  rcases exec_flat flat step with same | ⟨str, path, f, -, -, chosen⟩
  · rw [same]
    exact bounded
  · exact bounded.getTop chosen

/-! ## Along the functions of the stack -/

/-- What is asked for at every operation: the bounds, and that accesses other than those of a scan are
inside the array. -/
def StackAsks (cfg : Config) (w : W) (t : Server W) (o : Op) : Prop :=
  t.store.fstack.Bounded cfg ∧ (o.calm = true → inBounds cfg w t o = true)

abbrev Bounds (cfg : Config) (w : W) (p : Handler α) (post : α → Server W → Prop) (t : Server W) : Prop :=
  wp ((server W cfg).along w (fun _ _ => True) (StackAsks cfg w)) p post t

theorem bounds_bind {β : Type} {p : Handler α} {k : α → Handler β} {post : β → Server W → Prop} :
    Bounds cfg w (p >>= k) post t ↔ Bounds cfg w p (fun a => Bounds cfg w (k a) post) t :=
  wp_bind p k post t

theorem bounds_call {o : Op} {post : o.Resp → Server W → Prop} (bounded : t.store.fstack.Bounded cfg)
    (inside : inBounds cfg w t o = true)
    (h : ∀ x t', Server.exec cfg w o t = .ok (x, t') → post x t') : Bounds cfg w (call o) post t :=
  ⟨⟨bounded, fun _ => inside⟩, fun x t' step => h x t' step.2⟩

theorem bounds_flat {p : Handler α} (flat : p.All (·.flat = true)) (bounded : t.store.fstack.Bounded cfg) :
    Bounds cfg w p (fun _ t' => t'.store.fstack.Bounded cfg) t := by
  induction p generalizing t with
  | ret a => exact bounded
  | op o next ih =>
      refine ⟨⟨bounded, fun calm => ?_⟩, fun x t₁ step => ih x (flat.2 x) (bounded.flat flat.1 step.2)⟩
      have flat := flat.1
      cases o with
      | stackGetTop str => cases calm
      | stackPush name | stackDedup i | stackMove last i | stackClear i | stackSetTop top => cases flat
      | _ => rfl

theorem flat_of_plain {p : Handler α} (plain : p.All (·.plain = true)) : p.All (·.flat = true) :=
  plain.mono fun _ => Op.flat_of_plain

theorem flat_of_still {p : Handler α} (still : p.All (·.still = true)) : p.All (·.flat = true) :=
  flat_of_plain (plain_of_still still)

theorem bounds_plain {p : Handler α} (plain : p.All (·.plain = true)) (bounded : t.store.fstack.Bounded cfg) :
    Bounds cfg w p (fun _ t' => t'.store.fstack.Bounded cfg) t :=
  bounds_flat (flat_of_plain plain) bounded

theorem bounds_fileStackDefragLoop (n i last : Nat) (bounded : t.store.fstack.Bounded cfg)
    (rest : i + n = t.store.fstack.max) (packed : last ≤ i) :
    Bounds cfg w (fileStackDefragLoop n i last)
      (fun last t' => t'.store.fstack.Bounded cfg ∧ last ≤ t'.store.fstack.max) t := by
  induction n generalizing i last t with
  | zero =>
      refine ⟨bounded, ?_⟩
      rw [← rest]
      exact packed
  | succ n ih =>
      have inside : i < t.store.fstack.max := by omega
      have max_eq {u : Server W} (other : u.store.fstack.Bounded cfg) :
          u.store.fstack.max = t.store.fstack.max := other.max.trans bounded.max.symm
      have onward {u : Server W} (other : u.store.fstack.Bounded cfg) {last : Nat} (packed : last ≤ i + 1) :
          Bounds cfg w (fileStackDefragLoop n (i + 1) last)
            (fun last t' => t'.store.fstack.Bounded cfg ∧ last ≤ t'.store.fstack.max) u := by
        refine ih (i + 1) last other ?_ packed
        rw [max_eq other]
        omega
      unfold fileStackDefragLoop
      rw [bounds_bind]
      refine bounds_call bounded (decide_eq_true inside) fun cell t₁ step => ?_
      simp only [Server.exec] at step
      split at step
      · cases step
      · cases step
        exact onward bounded (Nat.le_succ_of_le packed)
      · rename_i name _
        cases step
        have bounded₁ : (t.store.fstack.dedup i name).Bounded cfg := by
          refine ⟨bounded.max, bounded.top, ?_⟩
          show (_ ++ _ : List (Option Path)).length = _
          rw [List.length_append, List.length_map, ← List.length_append, List.take_append_drop]
          exact bounded.length
        rw [bounds_bind]
        refine wp_mono (bounds_flat (flat_of_still (still_hashGetFile _)) bounded₁) fun found u other => ?_
        have inside' : i < u.store.fstack.max := by
          rw [max_eq other]
          exact inside
        cases found with
        | none =>
            show Bounds cfg w (call (.stackClear i) >>= _) _ _
            rw [bounds_bind]
            refine bounds_call other (decide_eq_true inside') fun x u₁ step => ?_
            cases step
            have cleared : (u.store.fstack.clearCell i).Bounded cfg :=
              ⟨other.max, other.top, (List.length_set ..).trans other.length⟩
            exact onward (u := u.setStack _) cleared (Nat.le_succ_of_le packed)
        | some f =>
            have both : inBounds cfg w u (.stackMove last i) = true :=
              Bool.and_eq_true_iff.mpr ⟨decide_eq_true (Nat.lt_of_le_of_lt packed inside'),
                decide_eq_true inside'⟩
            show Bounds cfg w (call (.stackMove last i) >>= _) _ _
            rw [bounds_bind]
            refine bounds_call other both fun x u₁ step => ?_
            cases step
            have moved : (u.store.fstack.moveCell last i).Bounded cfg := by
              refine ⟨other.max, other.top, Eq.trans ?_ other.length⟩
              unfold FileStack.moveCell
              by_cases holes : last < i
              · simp [holes]
              · simp [holes]
            exact onward (u := u.setStack _) moved (Nat.succ_le_succ packed)

theorem bounds_fileStackDefrag (bounded : t.store.fstack.Bounded cfg) :
    Bounds cfg w fileStackDefrag (fun _ t' => t'.store.fstack.Bounded cfg) t := by
  unfold fileStackDefrag
  rw [bounds_bind]
  refine wp_mono (bounds_flat (p := lock .filestack) ((all_perform _).mpr rfl) bounded) ?_
  intro _ t₁ bounded₁
  rw [bounds_bind]
  refine bounds_call bounded₁ rfl fun max t₂ step => ?_
  cases step
  rw [bounds_bind]
  refine wp_mono (bounds_fileStackDefragLoop _ 0 0 bounded₁ (Nat.zero_add _) (Nat.le_refl 0)) ?_
  rintro last t₂ ⟨bounded₂, low⟩
  rw [bounds_bind]
  refine bounds_call bounded₂ rfl fun x t₃ step => ?_
  cases step
  exact bounds_flat ((all_perform _).mpr rfl) ⟨bounded₂.max, low, bounded₂.length⟩

theorem bounds_fileStackAdd (str : CStr) (bounded : t.store.fstack.Bounded cfg) :
    Bounds cfg w (fileStackAdd str) (fun _ t' => t'.store.fstack.Bounded cfg) t := by
  have push {u : Server W} (other : u.store.fstack.Bounded cfg) (room : u.store.fstack.top ≠ u.store.fstack.max) :
      Bounds cfg w (do call (.stackPush str); unlock .filestack)
        (fun _ t' => t'.store.fstack.Bounded cfg) u := by
    have below := Nat.lt_of_le_of_ne other.top room
    rw [bounds_bind]
    refine bounds_call other (decide_eq_true below) fun x u₁ step => ?_
    obtain ⟨name, -, step⟩ := Outcome.andThen_eq_ok.mp step
    cases name with
    | none => cases step
    | some name =>
        obtain ⟨stack, pushed, same⟩ := Outcome.andThen_eq_ok.mp step
        cases same
        unfold FileStack.push at pushed
        split at pushed
        · cases pushed
          exact bounds_flat ((all_perform _).mpr rfl)
            ⟨other.max, below, (List.length_set ..).trans other.length⟩
        · cases pushed
  unfold fileStackAdd
  rw [bounds_bind]
  refine bounds_call bounded rfl fun _ t₁ step => ?_
  obtain ⟨-, -, rfl⟩ := exec_lock step
  rw [bounds_bind]
  refine bounds_call bounded rfl fun top t₁ step => ?_
  cases step
  rw [bounds_bind]
  refine bounds_call bounded rfl fun max t₁ step => ?_
  cases step
  obtain ⟨u, named⟩ : ∃ u, t.setOwner .filestack (some w) = u := ⟨_, rfl⟩
  have held : u.owner .filestack ≠ none := by simp [← named]
  have bounded' : u.store.fstack.Bounded cfg := by
    rw [← named]
    exact bounded
  rw [named]
  by_cases full : u.store.fstack.top = u.store.fstack.max
  · rw [if_pos full, bounds_bind]
    unfold fileStackDefrag
    rw [bounds_bind]
    -- `filestack_mutex` is locked once more, and the call does not come back
    exact bounds_call bounded' rfl fun x t₂ step => absurd (exec_lock step).2.1 held
  · rw [if_neg full]
    exact push bounded' full

/-! ## Along the handlers -/

theorem flat_call {o : Op} (flat : o.flat = true) : (call o).All (·.flat = true) :=
  (all_perform o).mpr flat

theorem bare_call {o : Op} (bare : o.bare = true) : (call o).All (·.bare = true) :=
  (all_perform o).mpr bare

theorem flat_of_bare {p : Handler α} (bare : p.All (·.bare = true)) : p.All (·.flat = true) :=
  bare.mono fun _ bare => (Bool.and_eq_true_iff.mp bare).1

theorem bare_of_still {p : Handler α} (still : p.All (·.still = true)) : p.All (·.bare = true) := by
  refine still.mono fun o still => Bool.and_eq_true_iff.mpr ?_
  obtain ⟨plain, blind⟩ := Bool.and_eq_true_iff.mp still
  exact ⟨Op.flat_of_plain plain, blind⟩

theorem allocates_call {o : Op} (allocates : o.allocates = true) : (call o).All (·.allocates = true) :=
  (all_perform o).mpr allocates

theorem bare_of_allocates {p : Handler α} (allocates : p.All (·.allocates = true)) : p.All (·.bare = true) :=
  allocates.mono fun o allocates => by
    cases o with
    | writeNB fd msg => cases allocates
    | _ => exact allocates

theorem flat_of_allocates {p : Handler α} (allocates : p.All (·.allocates = true)) : p.All (·.flat = true) :=
  flat_of_bare (bare_of_allocates allocates)

theorem allocates_pageAddAll (pages : List Nat) : (pageAddAll pages).All (·.allocates = true) := by
  induction pages with
  | nil => trivial
  | cons page pages ih =>
      have add : (pageAdd page).All (·.allocates = true) :=
        (allocates_call rfl).bind fun _ => (allocates_call rfl).bind fun _ => allocates_call rfl
      exact add.bind fun _ => ih

theorem allocates_fileFree (f : FileId) : (fileFree f).All (·.allocates = true) := by
  unfold fileFree
  refine (allocates_call rfl).bind fun file => .ite ?_ (allocates_pageAddAll _)
  exact All.bind ⟨rfl, fun x => x.elim⟩ fun _ => allocates_pageAddAll _

theorem allocates_hashGetFile (str : CStr) (flag : Flag) : (hashGetFile str flag).All (·.allocates = true) :=
  (allocates_call rfl).bind fun _ => (allocates_call rfl).bind fun _ => (allocates_call rfl).bind fun _ => all_pure _

theorem allocates_fileDeleteFIFO (str : CStr) : (fileDeleteFIFO str).All (·.allocates = true) := by
  have scan : (fileStackGetTop str).All (·.allocates = true) :=
    (allocates_call rfl).bind fun top => .ite (all_pure _) ((allocates_call rfl).bind fun _ =>
      (allocates_call rfl).bind fun _ => (allocates_call rfl).bind fun _ => all_pure _)
  unfold fileDeleteFIFO
  refine (allocates_call rfl).bind fun _ => scan.bind fun found => ?_
  cases found with
  | none => exact (allocates_call rfl).bind fun _ => all_pure _
  | some v =>
      exact (allocates_call rfl).bind fun _ => (allocates_hashGetFile _ _).bind fun _ => (allocates_call rfl).bind
        fun _ => (allocates_call rfl).bind fun _ => (allocates_fileFree v).bind fun _ => all_pure _

theorem allocates_fileNUpdate (nMax : Nat) : (fileNUpdate nMax).All (·.allocates = true) := by
  have rest (ret : Int) : (do unlock .fileN; return ret : Handler Int).All (·.allocates = true) :=
    (allocates_call rfl).bind fun _ => all_pure _
  exact (allocates_call rfl).bind fun _ => (allocates_call rfl).bind fun _ =>
    .ite ((all_pure _).bind rest) ((allocates_fileDeleteFIFO _).bind rest)

theorem allocates_pageTake : pageTake.All (·.allocates = true) :=
  (allocates_call rfl).bind fun _ => (allocates_call rfl).bind fun _ => (allocates_call rfl).bind fun _ => all_pure _

theorem allocates_pageGetLoop (str : CStr) (fuel : Nat) : (pageGetLoop str fuel).All (·.allocates = true) := by
  induction fuel with
  | zero => exact ⟨rfl, fun x => x.elim⟩
  | succ fuel ih =>
      have decrease : fileNDecrease.All (·.allocates = true) :=
        (allocates_call rfl).bind fun _ => (allocates_call rfl).bind fun _ => allocates_call rfl
      have retry : (pageRetry str fuel).All (·.allocates = true) := by
        refine allocates_pageTake.bind fun page => ?_
        cases page with
        | none => exact ih
        | some page => exact all_pure _
      exact (allocates_fileDeleteFIFO str).bind fun _ => .ite (decrease.bind fun _ => retry) retry

theorem allocates_pageGet (fuel : Nat) (str : CStr) : (pageGet fuel str).All (·.allocates = true) := by
  unfold pageGet
  refine allocates_pageTake.bind fun page => ?_
  cases page with
  | none => exact allocates_pageGetLoop str fuel
  | some page => exact all_pure _

theorem allocates_filePagesInitialize (fuel : Nat) (f : FileId) :
    (filePagesInitialize cfg fuel f).All (·.allocates = true) := by
  have fill (n : Nat) : (filePagesFill fuel f n).All (·.allocates = true) := by
    induction n with
    | zero => trivial
    | succ n ih => exact (allocates_pageGet ..).bind fun _ => (allocates_call rfl).bind fun _ => ih
  exact (allocates_call rfl).bind fun _ => (allocates_call rfl).bind fun _ => (allocates_call rfl).bind fun _ => fill _

theorem allocates_filePagesRenew (fuel : Nat) (f : FileId) (dim : Int) :
    (filePagesRenew fuel f dim).All (·.allocates = true) := by
  have extra (n : Nat) : (filePagesExtra fuel f n).All (·.allocates = true) := by
    induction n with
    | zero => trivial
    | succ n ih => exact (allocates_pageGet ..).bind fun _ => ih.bind fun _ => all_pure _
  have rest (file : MemFile) : (do
      let extra ← filePagesExtra fuel f (dim.toNat - file.pagesN)
      store f (.pagesRenew dim.toNat (file.pages.take file.pagesN ++ extra)) : Handler Unit).All
        (·.allocates = true) := (extra _).bind fun _ => allocates_call rfl
  exact (allocates_call rfl).bind fun file => .ite (all_pure _)
    (.ite (All.bind ⟨rfl, fun x => x.elim⟩ fun _ => rest file) (rest file))

theorem flat_fileAppend (fuel fd : Nat) (path : Path) (pid : Pid) (n : Nat) (data : List UInt8) :
    (fileAppend cfg fuel fd path pid n data).All (·.flat = true) :=
  (flat_of_still (still_fileOpenCheck ..)).bind fun _ => (flat_of_still (still_deref _)).bind fun _ =>
    (flat_call rfl).bind fun _ => (flat_call rfl).bind fun _ => (flat_call rfl).bind fun _ =>
      .ite (flat_call rfl) ((flat_of_allocates (allocates_filePagesRenew ..)).bind fun _ =>
        (flat_of_plain (plain_appendData ..)).bind fun _ => (flat_call rfl).bind fun _ =>
          (flat_call rfl).bind fun _ => flat_call rfl)

theorem bare_fileDelete (fd : Nat) (path : Path) (pid : Pid) :
    (fileDelete fd path pid).All (·.bare = true) :=
  (bare_of_still (still_fileOpenCheck ..)).bind fun _ => (bare_call rfl).bind fun _ =>
    .ite ((bare_of_still (still_deref _)).bind fun _ => (bare_call rfl).bind fun _ =>
      (bare_of_allocates (allocates_hashGetFile _ _)).bind fun _ => (bare_call rfl).bind fun _ =>
        bare_of_allocates (allocates_fileFree _)) (all_pure _)

theorem bare_fileInit (fd : Nat) (path : Path) : (fileInit fd path).All (·.bare = true) :=
  (bare_call rfl).bind fun _ => (bare_call rfl).bind fun _ => (bare_call rfl).bind fun _ =>
    (bare_call rfl).bind fun _ => (bare_call rfl).bind fun _ => (bare_call rfl).bind fun _ =>
      bare_call rfl

theorem bounds_fileWrite (fuel fd : Nat) (path : Path) (pid : Pid) (n : Nat) (data : List UInt8)
    (bounded : t.store.fstack.Bounded cfg) : Bounds cfg w (fileWrite cfg fuel fd path pid n data)
      (fun _ t' => t'.store.fstack.Bounded cfg) t := by
  have step {α : Type} {p : Handler α} {k : α → Handler Unit} {u : Server W} (flat : p.All (·.flat = true))
      (bounded : u.store.fstack.Bounded cfg)
      (rest : ∀ a u', u'.store.fstack.Bounded cfg →
        Bounds cfg w (k a) (fun _ t' => t'.store.fstack.Bounded cfg) u') :
      Bounds cfg w (p >>= k) (fun _ t' => t'.store.fstack.Bounded cfg) u :=
    bounds_bind.mpr (wp_mono (bounds_flat flat bounded) rest)
  have accepted (f : FileId) {u : Server W} (bounded : u.store.fstack.Bounded cfg) :
      Bounds cfg w (writeAccepted cfg fuel fd f n data) (fun _ t' => t'.store.fstack.Bounded cfg) u := by
    unfold writeAccepted
    refine step (flat_call rfl) bounded fun _ u₁ bounded₁ => ?_
    refine step (flat_of_allocates (allocates_fileNUpdate _)) bounded₁ fun _ u₂ bounded₂ => ?_
    refine step (flat_of_allocates (allocates_filePagesInitialize ..)) bounded₂ fun _ u₃ bounded₃ => ?_
    refine step (flat_call rfl) bounded₃ fun file u₄ bounded₄ => ?_
    refine step (flat_of_plain (plain_writePages ..)) bounded₄ fun rest u₅ bounded₅ => ?_
    refine step (flat_of_plain (plain_addPageToMem ..)) bounded₅ fun _ u₆ bounded₆ => ?_
    refine bounds_bind.mpr (wp_mono (bounds_fileStackAdd _ bounded₆) fun _ u₇ bounded₇ => ?_)
    exact step (flat_call rfl) bounded₇ fun _ u₈ bounded₈ => bounds_flat (flat_call rfl) bounded₈
  unfold fileWrite
  refine step (flat_of_still (still_fileOpenCheck ..)) bounded fun (reqErr, fileReq) u₁ bounded₁ => ?_
  refine step (flat_of_still (still_deref _)) bounded₁ fun f u₂ bounded₂ => ?_
  refine step (flat_call rfl) bounded₂ fun _ u₃ bounded₃ => ?_
  refine step (flat_call rfl) bounded₃ fun file u₄ bounded₄ => ?_
  refine step (flat_call rfl) bounded₄ fun _ u₅ bounded₅ => ?_
  exact wp_ite (fun _ => bounds_flat (flat_call rfl) bounded₅) fun _ => accepted f bounded₅

theorem bounds_handle (fuel fd : Nat) (r : Request) (bounded : t.store.fstack.Bounded cfg) :
    Bounds cfg w (handle cfg fuel fd r) (fun _ t' => t'.store.fstack.Bounded cfg) t := by
  cases r with
  | fileRead path pid => exact bounds_plain (plain_fileRead fd path pid) bounded
  | fileNRead fileNum rand =>
      obtain ⟨rest, same, plain⟩ : ∃ rest, fileNRead cfg fd fileNum rand = _ ∧ _ :=
        fileNRead_eq fd fileNum rand
      show Bounds cfg w (fileNRead cfg fd fileNum rand) _ t
      rw [same, bounds_bind]
      exact wp_mono (bounds_fileStackDefrag bounded) fun _ t₁ bounded₁ => bounds_plain plain bounded₁
  | fileWrite path pid n data => exact bounds_fileWrite fuel fd path pid n data bounded
  | fileAppend path pid n data => exact bounds_flat (flat_fileAppend fuel fd path pid n data) bounded
  | fileOpen path pid => exact bounds_flat (flat_of_still (still_fileOpen fd path pid)) bounded
  | fileClose path pid => exact bounds_flat (flat_of_still (still_fileClose fd path pid)) bounded
  | fileDelete path pid => exact bounds_flat (flat_of_bare (bare_fileDelete fd path pid)) bounded
  | fileLock => exact bounded
  | fileUnlock => exact bounded
  | fileSearch path => exact bounds_flat (flat_of_still ((still_fileSearch fd path).bind fun _ => all_pure _)) bounded
  | fileInit path => exact bounds_flat (flat_of_bare (bare_fileInit fd path)) bounded

theorem Served.bounded (served : Served W cfg (fun _ _ => True) s) : s.store.fstack.Bounded cfg := by
  induction served with
  | initial => exact bounded_initial W cfg
  | request before wellFormed met completed ih =>
      exact Machine.run_of_along (bounds_handle _ _ _ ih) (fun _ _ _ => trivial) completed

/-! ## Scans -/

theorem FileStack.scanDown_total {search : Path → Outcome Fault (Option FileId)}
    {stack : List (Option Path)} (total : ∀ name, ∃ r, search name = .ok r) (n : Nat) :
    (∃ r, scanDown search stack n = .ok r) ∨ scanDown search stack n = .fault .stackIndex := by
  induction n with
  | zero => exact .inr rfl
  | succ n ih =>
      simp only [scanDown]
      cases stack[n]? with
      | none => exact .inr rfl
      | some cell =>
          cases cell with
          | none => exact ih
          | some name =>
              obtain ⟨found, searched⟩ := total name
              simp only [searched, Outcome.andThen_ok]
              cases found with
              | none => exact ih
              | some f => exact .inl ⟨(n, f), rfl⟩

theorem FileStack.scanDown_finds {search : Path → Outcome Fault (Option FileId)}
    {stack : List (Option Path)} {n i : Nat} (total : ∀ name, ∃ r, search name = .ok r)
    (inside : n ≤ stack.length) (below : i < n) (live : Live search stack i f) :
    ∃ r, scanDown search stack n = .ok r := by
  induction n with
  | zero => cases below
  | succ n ih =>
      by_cases here : i = n
      · subst here
        obtain ⟨name, cell, searched⟩ := live
        exact ⟨(i, f), by simp [scanDown, cell, searched]⟩
      · have lower : i < n := Nat.lt_of_le_of_ne (Nat.lt_succ_iff.mp below) here
        obtain ⟨r, found⟩ := ih (Nat.le_of_succ_le inside) lower
        simp only [scanDown]
        cases cell : stack[n]? with
        | none => exact absurd (List.getElem?_eq_none_iff.mp cell) (Nat.not_le.mpr inside)
        | some entry =>
            cases entry with
            | none => exact ⟨r, found⟩
            | some name =>
                obtain ⟨result, searched⟩ := total name
                simp only [searched, Outcome.andThen_ok]
                cases result with
                | none => exact ⟨r, found⟩
                | some g => exact ⟨(n, g), rfl⟩

theorem FileStack.getTop_total {search : Path → Outcome Fault (Option FileId)} {stack : FileStack}
    {path : Option Path} (total : ∀ name, ∃ r, search name = .ok r) :
    (∃ r, stack.getTop search path = .ok r) ∨ stack.getTop search path = .fault .stackIndex ∨
      stack.getTop search path = .fault .nullString := by
  have scan (n : Nat) (upd : Nat × FileId → FileId × FileStack) :
      (∃ r, (scanDown search stack.stack n).andThen (fun p => .ok (upd p)) = .ok r) ∨
        (scanDown search stack.stack n).andThen (fun p => .ok (upd p)) = .fault .stackIndex ∨
        (scanDown search stack.stack n).andThen (fun p => .ok (upd p)) = .fault .nullString := by
    rcases scanDown_total total n with ⟨r, scanned⟩ | failed
    · rw [scanned]
      exact .inl ⟨upd r, rfl⟩
    · rw [failed]
      exact .inr (.inl rfl)
  cases path with
  | none => exact scan _ _
  | some path =>
      simp only [getTop]
      cases stack.stack[stack.top - 1]? with
      | none => exact .inr (.inl rfl)
      | some cell =>
          cases cell with
          | none => exact .inr (.inr rfl)
          | some name =>
              by_cases self : strncmpEq name path = true
              · simp only [if_pos self]
                exact scan _ _
              · simp only [if_neg self]
                exact scan _ _

theorem scan_inBounds {str : CStr} {path : Option Path} (bounded : t.store.fstack.Bounded cfg)
    (total : ∀ name, ∃ r, t.store.lookup cfg name = .ok r) (read : t.readStr str = .ok path) :
    inBounds cfg w t (.stackGetTop str) = true ↔ ScanStops cfg t (.stackGetTop str) := by
  have inside : t.store.fstack.top ≤ t.store.fstack.stack.length := by
    rw [bounded.length]
    exact bounded.top
  have step := exec_stackGetTop cfg w read
  have chosen : inBounds cfg w t (.stackGetTop str) = true ↔
      ∃ f stack, t.store.fstack.getTop (t.store.lookup cfg) path = .ok (f, stack) := by
    rcases FileStack.getTop_total total with ⟨⟨f, stack⟩, found⟩ | failed | failed
    · rw [found] at step
      exact iff_of_true (by simp only [inBounds, step, Outcome.andThen_ok]) ⟨f, stack, found⟩
    · rw [failed] at step ⊢
      refine iff_of_false ?_ (by simp)
      simp [inBounds, step]
    · rw [failed] at step ⊢
      refine iff_of_false ?_ (by simp)
      simp [inBounds, step]
  rw [chosen]
  constructor
  · rintro ⟨f, stack, found⟩ path' read'
    cases read.symm.trans read'
    obtain ⟨comparable, i, uppermost, -⟩ := (FileStack.getTop_eq_ok total inside).mp found
    obtain ⟨name, cell, searched⟩ := uppermost.live
    exact ⟨comparable, i, name, f, ⟨uppermost.below, cell, searched⟩, uppermost.apart⟩
  · intro stops
    obtain ⟨comparable, i, name, f, lists, apart⟩ := stops path read
    have below : i < t.store.fstack.scanned path := by
      unfold FileStack.scanned
      have low := lists.1
      split
      · rename_i self
        have other : i + 1 ≠ t.store.fstack.top := fun last => by simp [apart last] at self
        omega
      · exact low
    have scanned : t.store.fstack.scanned path ≤ t.store.fstack.stack.length := by
      unfold FileStack.scanned
      split
      · exact Nat.le_trans (Nat.sub_le _ _) inside
      · exact inside
    obtain ⟨⟨j, g⟩, found⟩ := FileStack.scanDown_finds total scanned below lists.live
    exact ⟨g, _, FileStack.getTop_eq_scan.mpr ⟨comparable, j, found, rfl⟩⟩

theorem Midway.total {s₀ : Server W} (midway : Midway cfg w s₀ f t) (name : Path) :
    ∃ r, t.store.lookup cfg name = .ok r := by
  obtain ⟨busy, extra, -, consistent⟩ := midway.consistent
  refine Store.lookup_total (fun g mem => ?_) name
  obtain ⟨file, found⟩ := consistent.alive mem
  rw [found]
  nofun

/-- The top never leaves the array, and no access does either, exactly as long as every scan comes to a
recorded name. -/
theorem stack_bounds (served : Served W cfg (fun _ _ => True) s) :
    s.store.fstack.Bounded cfg ∧ ∀ w fuel fd r o t, r.WellFormed →
      (server W cfg).Visits w (handle cfg fuel fd r) s o t →
      t.store.fstack.Bounded cfg ∧ (inBounds cfg w t o = true ↔ ScanStops cfg t o) := by
  have bounded := served.bounded
  refine ⟨bounded, fun w fuel fd r o t wellFormed visits => ?_⟩
  obtain ⟨bounded', inside⟩ : StackAsks cfg w t o :=
    Machine.visits_of_along (bounds_handle fuel fd r bounded) (fun _ _ _ => trivial) visits
  refine ⟨bounded', ?_⟩
  cases event_of_visits served.idle wellFormed visits with
  | take midway => exact iff_of_true rfl trivial
  | @pick f t₀ midway exhausted =>
      obtain ⟨self, found⟩ := midway.alive
      have read : (t₀.picking w).readStr (.abspath f) = .ok (some self.abspath) :=
        Server.onFile_some _ found
      exact scan_inBounds bounded' (midway.total ·) read
  | count midway settles full => exact scan_inBounds bounded' (midway.total ·) (by rfl)
  | calm calm =>
      refine iff_of_true (inside calm) ?_
      cases o with
      | stackGetTop str => cases calm
      | _ => trivial

end

/-! ## Below the array -/

def deletedTwo : List Request :=
  deletedFile ++ [.fileInit [98], .fileOpen [98] 7, .fileWrite [98] 7 4 [5, 6, 7, 8], .fileDelete [98] 7,
    .fileInit [99], .fileOpen [99] 7]

/-- Two files were written and deleted: the third write counts them still, looks for a file to evict and
leaves the array. -/
theorem stack_overrun : Served Unit smallConfig (fun _ _ => True) (reached smallConfig 5 deletedTwo) ∧
    ∃ o t, (server Unit smallConfig).Visits () (handle smallConfig 5 0 (.fileWrite [99] 7 4 [9, 9, 9, 9]))
        (reached smallConfig 5 deletedTwo) o t ∧ inBounds smallConfig () t o = false :=
  ⟨served_reached (by simp [deletedTwo, deletedFile, Request.WellFormed]) (fun _ _ _ => trivial)
    (by decide +kernel), Machine.visits_of_checks (by decide +kernel)⟩

theorem stack_bounds_example : (reached smallConfig 5 threeFiles).store.fstack.Bounded smallConfig ∧
    ∀ w fuel fd r o t, r.WellFormed →
      (server Unit smallConfig).Visits w (handle smallConfig fuel fd r) (reached smallConfig 5 threeFiles)
        o t →
      t.store.fstack.Bounded smallConfig ∧
        (inBounds smallConfig w t o = true ↔ ScanStops smallConfig t o) :=
  stack_bounds (served_reached (by simp [threeFiles, twoFiles, deletedFile, Request.WellFormed])
    (fun _ _ _ => trivial) (by decide +kernel))

end FileServer
