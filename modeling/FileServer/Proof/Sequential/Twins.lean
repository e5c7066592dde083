import FileServer.Program.Paired
import FileServer.Proof.Sequential.StackBounds

/-!
# Two servers with other bytes in their pages

Two servers that agree except for the bytes of the pages, and for what they have sent before, take the
same steps until one of these bytes is read.
-/

namespace FileServer
open Program

/-- The same state with other bytes in the pages, after other messages. -/
def Server.face {W : Type} (t : Server W) (mem : Nat → List UInt8) (before : List (Nat × Msg)) :
    Server W :=
  ⟨{ t.store with memPtr := mem }, t.owner, before ++ t.sent⟩

def Faces {W : Type} (mem₁ mem₂ : Nat → List UInt8) (before₁ before₂ : List (Nat × Msg))
    (s₁ s₂ : Server W) : Prop :=
  ∃ t : Server W, s₁ = t.face mem₁ before₁ ∧ s₂ = t.face mem₂ before₂

def Alike {W : Type} (before₁ before₂ : List (Nat × Msg)) (s₁ s₂ : Server W) : Prop :=
  ∃ mem₁ mem₂, (∀ page, (mem₁ page).length = (mem₂ page).length) ∧
    Faces mem₁ mem₂ before₁ before₂ s₁ s₂

/-- Run from states that differ in the bytes of the pages only, `p₂` does as `p₁` does. -/
def Lockstep {W α : Type} (cfg : Config) (w : W) (before₁ before₂ : List (Nat × Msg))
    (p₁ p₂ : Handler α) (R : α → α → Prop) : Prop :=
  ∀ s₁ s₂ : Server W, Alike before₁ before₂ s₁ s₂ → (server W cfg).Paired w p₁ p₂
    (fun a b t₁ t₂ => R a b ∧ Alike before₁ before₂ t₁ t₂) s₁ s₂

section
variable {W α β : Type} {cfg : Config} {w : W} {s t t' : Server W} {mem mem₁ mem₂ : Nat → List UInt8}
  {before before₁ before₂ : List (Nat × Msg)}

theorem searchTable_face (σ : Store) (mem : Nat → List UInt8) (path : Path) (flag : Flag) :
    Store.hashTbSearch cfg { σ with memPtr := mem } path flag =
      (σ.hashTbSearch cfg path flag).andThen fun (f, σ') => .ok (f, { σ' with memPtr := mem }) := by
  unfold Store.hashTbSearch
  dsimp only
  cases searchBucket σ.files (hashKey path) path (σ.table.getD (Store.hashTbPos cfg path) []) with
  | ok found =>
      cases found with
      | none => rfl
      | some result => cases flag <;> rfl
  | _ => rfl

theorem exec_face {o : Op} (blind : o.blind = true) (t : Server W) :
    Server.exec cfg w o (t.face mem before) =
      (Server.exec cfg w o t).andThen fun (x, t') => .ok (x, t'.face mem before) := by
  have onFile {α : Type} (f : FileId) (k : MemFile → Outcome Fault (α × Server W)) :
      (t.onFile f k).andThen (fun r => .ok (r.1, r.2.face mem before)) =
        t.onFile f fun file => (k file).andThen fun r => .ok (r.1, r.2.face mem before) := by
    unfold Server.onFile
    cases t.store.files f <;> rfl
  have sameStr {α : Type} (str : CStr) (k : Option Path → Outcome Fault (α × Server W)) :
      ((t.readStr str).andThen k).andThen (fun r => .ok (r.1, r.2.face mem before)) =
        (t.readStr str).andThen fun path => (k path).andThen fun r =>
          .ok (r.1, r.2.face mem before) := Outcome.andThen_assoc _ _ _
  cases o with
  | memcpy page offset input size | memRead page size => cases blind
  | abort e | spin => rfl
  | lock m =>
      have here : (if (t.face mem before).owner m = none then
          .ok ((), (t.face mem before).setOwner m (some w)) else .blocked) =
          (if t.owner m = none then Outcome.ok ((), t.setOwner m (some w)) else .blocked :
            Outcome Fault _).andThen fun r => .ok (r.1, r.2.face mem before) := by
        show (if t.owner m = none then _ else _) = _
        by_cases free : t.owner m = none
        · rw [if_pos free, if_pos free]
          rfl
        · rw [if_neg free, if_neg free]
          rfl
      cases m with
      | file f => exact (congrArg (t.onFile f) (funext fun _ => here)).trans (onFile f _).symm
      | _ => exact here
  | unlock m =>
      cases m with
      | file f =>
          show t.onFile f _ = (t.onFile f _).andThen _
          rw [onFile]
          rfl
      | _ => rfl
  | load f | store f field | free f | hashTbAdd f =>
      show t.onFile f _ = (t.onFile f _).andThen _
      rw [onFile]
      rfl
  | newFile path | pageAdd page | fileNDecrease | stackTop str | stackMax | stackMove last i
  | stackClear i | stackSetTop top => rfl
  | hashTbSearch str flag =>
      show (t.readStr str).andThen _ = ((t.readStr str).andThen _).andThen _
      rw [sameStr]
      refine congrArg (Outcome.andThen _) (funext fun path => ?_)
      cases path with
      | none => rfl
      | some path =>
          show (Store.hashTbSearch cfg { t.store with memPtr := mem } path flag).andThen _ =
            ((t.store.hashTbSearch cfg path flag).andThen _).andThen _
          rw [searchTable_face, Outcome.andThen_assoc, Outcome.andThen_assoc]
          rfl
  | pageTake =>
      simp only [Server.exec]
      have same : (t.face mem before).store.pages = t.store.pages := rfl
      rw [same]
      cases t.store.pages <;> rfl
  | fileNIncrease max =>
      simp only [Server.exec]
      show (if (max : Int) ≤ t.store.fileN then _ else _) = _
      by_cases full : (max : Int) ≤ t.store.fileN
      · rw [if_pos full, if_pos full]
        rfl
      · rw [if_neg full, if_neg full]
        rfl
  | stackGetTop str =>
      have search : (fun name => ((t.face mem before).store.hashTbSearch cfg name .src).andThen
          fun found => Outcome.ok found.1) = fun name => (t.store.hashTbSearch cfg name .src).andThen
            fun found => .ok found.1 := by
        funext name
        show (Store.hashTbSearch cfg { t.store with memPtr := mem } name .src).andThen _ = _
        rw [searchTable_face, Outcome.andThen_assoc]
        rfl
      show (t.readStr str).andThen _ = ((t.readStr str).andThen _).andThen _
      rw [sameStr]
      refine congrArg (Outcome.andThen _) (funext fun path => ?_)
      dsimp only
      rw [search, Outcome.andThen_assoc]
      rfl
  | stackCell i =>
      simp only [Server.exec]
      have same : (t.face mem before).store.fstack = t.store.fstack := rfl
      rw [same]
      cases t.store.fstack.stack[i]? <;> rfl
  | stackPush str =>
      show (t.readStr str).andThen _ = ((t.readStr str).andThen _).andThen _
      rw [sameStr]
      refine congrArg (Outcome.andThen _) (funext fun path => ?_)
      cases path with
      | none => rfl
      | some name =>
          show (t.store.fstack.push name).andThen _ = ((t.store.fstack.push name).andThen _).andThen _
          rw [Outcome.andThen_assoc]
          rfl
  | stackDedup i =>
      simp only [Server.exec]
      have same : (t.face mem before).store.fstack = t.store.fstack := rfl
      rw [same]
      rcases t.store.fstack.stack[i]? with _ | _ | name <;> rfl
  | writeNB fd msg => 
      simp [Server.exec, Server.send, Server.face]
theorem memcpy_face (t : Server W) (page : Nat) (offset : Int) (input : List UInt8) (size : Nat) :
    (t.face mem before).memcpy page offset input size =
      if input.length < size then .fault .inputBounds
      else if t.store.pageN ≤ page ∨ size ≠ 0 ∧ (offset < 0 ∨ ((mem page).length : Int) < offset + size) then
        .fault .pageBounds
      else .ok (t.face (Function.update mem page ((mem page).take offset.toNat ++ input.take size ++
        (mem page).drop (offset.toNat + size))) before) := rfl

/-! ## In lockstep -/

theorem Faces.exec {o : Op} {x : o.Resp} {s₁ s₂ s₁' : Server W} (blind : o.blind = true)
    (faces : Faces mem₁ mem₂ before₁ before₂ s₁ s₂)
    (step : Server.exec cfg w o s₁ = .ok (x, s₁')) :
    ∃ s₂', Server.exec cfg w o s₂ = .ok (x, s₂') ∧ Faces mem₁ mem₂ before₁ before₂ s₁' s₂' := by
  obtain ⟨t, rfl, rfl⟩ := faces
  rw [exec_face blind, Outcome.andThen_eq_ok] at step
  obtain ⟨⟨x, t'⟩, step, same⟩ := step
  cases same
  refine ⟨t'.face mem₂ before₂, ?_, t', rfl, rfl⟩
  rw [exec_face blind, step]
  rfl

theorem paired_blind {p : Handler α} {s₁ s₂ : Server W} (blind : p.All (·.blind = true))
    (faces : Faces mem₁ mem₂ before₁ before₂ s₁ s₂) : (server W cfg).Paired w p p
      (fun a b t₁ t₂ => a = b ∧ Faces mem₁ mem₂ before₁ before₂ t₁ t₂) s₁ s₂ :=
  .all blind (fun _ _ _ _ _ blind faces step => faces.exec blind step) faces

namespace Lockstep
variable {p p₁ p₂ q₁ q₂ : Handler α} {R : α → α → Prop}

theorem ret {a b : α} (related : R a b) : Lockstep cfg w before₁ before₂ (.ret a) (.ret b) R :=
  fun _ _ alike => .ret ⟨related, alike⟩

theorem bind {k₁ k₂ : α → Handler β} {T : β → β → Prop}
    (first : Lockstep cfg w before₁ before₂ p₁ p₂ R)
    (rest : ∀ a b, R a b → Lockstep cfg w before₁ before₂ (k₁ a) (k₂ b) T) :
    Lockstep cfg w before₁ before₂ (p₁ >>= k₁) (p₂ >>= k₂) T :=
  fun s₁ s₂ alike => (first s₁ s₂ alike).bind fun a b t₁ t₂ related =>
    rest a b related.1 t₁ t₂ related.2

theorem ite {c : Prop} [Decidable c] (pos : c → Lockstep cfg w before₁ before₂ p₁ p₂ R)
    (neg : ¬c → Lockstep cfg w before₁ before₂ q₁ q₂ R) :
    Lockstep cfg w before₁ before₂ (if c then p₁ else q₁) (if c then p₂ else q₂) R :=
  fun s₁ s₂ alike => .ite (fun h => pos h s₁ s₂ alike) fun h => neg h s₁ s₂ alike

theorem blind (blind : p.All (·.blind = true)) : Lockstep cfg w before₁ before₂ p p (· = ·) := by
  rintro s₁ s₂ ⟨mem₁, mem₂, sized, faces⟩
  exact (paired_blind blind faces).mono fun a b t₁ t₂ related =>
    ⟨related.1, mem₁, mem₂, sized, related.2⟩

theorem after {k₁ k₂ : α → Handler β} {T : β → β → Prop} (blind : p.All (·.blind = true))
    (rest : ∀ a, Lockstep cfg w before₁ before₂ (k₁ a) (k₂ a) T) :
    Lockstep cfg w before₁ before₂ (p >>= k₁) (p >>= k₂) T :=
  (Lockstep.blind blind).bind fun a _ same => same ▸ rest a

theorem abort {e : Fault} {k₁ k₂ : α → Handler β} {T : β → β → Prop} :
    Lockstep cfg w before₁ before₂ (abort e >>= k₁) (abort e >>= k₂) T := by
  intro s₁ s₂ alike b s₁' ends
  cases ends

theorem memcpy {input₁ input₂ : List UInt8} (page : Nat) (offset : Int) (size : Nat)
    (length : input₁.length = input₂.length) : Lockstep cfg w before₁ before₂
      (call (.memcpy page offset input₁ size)) (call (.memcpy page offset input₂ size)) (· = ·) := by
  rintro _ _ ⟨mem₁, mem₂, sized, t, rfl, rfl⟩ x s₁' ends
  rw [run_call] at ends ⊢
  obtain ⟨s₁'', copied, same⟩ := Outcome.andThen_eq_ok.mp ends
  cases same
  rw [memcpy_face] at copied
  by_cases short : input₁.length < size
  · rw [if_pos short] at copied
    cases copied
  rw [if_neg short] at copied
  by_cases out : t.store.pageN ≤ page ∨ size ≠ 0 ∧ (offset < 0 ∨ ((mem₁ page).length : Int) < offset + size)
  · rw [if_pos out] at copied
    cases copied
  rw [if_neg out] at copied
  cases copied
  rw [length] at short
  rw [sized] at out
  have copied₂ : (t.face mem₂ before₂).memcpy page offset input₂ size = _ :=
    (memcpy_face ..).trans ((if_neg short).trans (if_neg out))
  refine ⟨(), _, congrArg (Outcome.andThen · _) copied₂, rfl, _, _, fun q => ?_, t, rfl, rfl⟩
  by_cases here : q = page
  · rw [here, Function.update_self, Function.update_self]
    simp only [List.length_append, List.length_take, List.length_drop, sized, length]
  · rw [Function.update_of_ne here, Function.update_of_ne here]
    exact sized q

end Lockstep

/-! ## The handlers -/

theorem blind_of_bare {p : Handler α} (bare : p.All (·.bare = true)) : p.All (·.blind = true) :=
  bare.mono fun _ bare => (Bool.and_eq_true_iff.mp bare).2

theorem blind_of_allocates {p : Handler α} (allocates : p.All (·.allocates = true)) : p.All (·.blind = true) :=
  blind_of_bare (bare_of_allocates allocates)

theorem blind_of_still {p : Handler α} (still : p.All (·.still = true)) : p.All (·.blind = true) :=
  still.mono fun _ still => (Bool.and_eq_true_iff.mp still).2

theorem blind_of_tidy {p : Handler α} (tidy : p.All (·.tidy = true)) : p.All (·.blind = true) :=
  tidy.mono fun _ tidy => (Bool.and_eq_true_iff.mp tidy).2

theorem blind_call {o : Op} (blind : o.blind = true) : (call o).All (·.blind = true) :=
  (all_perform o).mpr blind

section
variable {data₁ data₂ : List UInt8}

theorem lockstep_addPageToMem (f : FileId) (pageInd : Int) (size : Nat) (offset : Int)
    (length : data₁.length = data₂.length) : Lockstep cfg w before₁ before₂
      (addPageToMem cfg data₁ f pageInd size offset) (addPageToMem cfg data₂ f pageInd size offset)
        (· = ·) := by
  unfold addPageToMem
  refine .ite (fun _ => .ret rfl) fun _ => .after (blind_call rfl) fun file => ?_
  refine .ite (fun _ => .abort) fun _ => ?_
  cases file.pages[pageInd.toNat]? with
  | none => exact .blind ⟨rfl, fun x => x.elim⟩
  | some index => exact (Lockstep.memcpy index offset size length).bind fun _ _ _ => .ret rfl

theorem lockstep_writePages (f : FileId) (n toWrite : Nat) (length : data₁.length = data₂.length) :
    Lockstep cfg w before₁ before₂ (writePages cfg f n toWrite data₁)
      (writePages cfg f n toWrite data₂) fun rest₁ rest₂ => rest₁.length = rest₂.length := by
  induction n generalizing toWrite data₁ data₂ with
  | zero => exact .ret length
  | succ n ih =>
      unfold writePages
      refine (lockstep_addPageToMem f toWrite cfg.pageSize 0 length).bind fun _ _ _ => ih (toWrite + 1) ?_
      rw [List.length_drop, List.length_drop, length]

theorem lockstep_fileWrite (fuel fd : Nat) (path : Path) (pid : Pid) (fileSize : Nat)
    (length : data₁.length = data₂.length) : Lockstep cfg w before₁ before₂
      (fileWrite cfg fuel fd path pid fileSize data₁) (fileWrite cfg fuel fd path pid fileSize data₂)
        (· = ·) := by
  unfold fileWrite
  refine .after (blind_of_still (still_fileOpenCheck ..)) fun (reqErr, fileReq) => ?_
  refine .after (blind_of_still (still_deref _)) fun f => .after (blind_call rfl) fun _ =>
    .after (blind_call rfl) fun file => .after (blind_call rfl) fun _ => ?_
  refine .ite (fun _ => .blind (blind_call rfl)) fun _ => ?_
  unfold writeAccepted
  refine .after (blind_call rfl) fun _ => .after (blind_of_allocates (allocates_fileNUpdate _)) fun _ =>
    .after (blind_of_allocates (allocates_filePagesInitialize ..)) fun _ => .after (blind_call rfl) fun file => ?_
  have start : (data₁.take fileSize).length = (data₂.take fileSize).length := by
    rw [List.length_take, List.length_take, length]
  refine (lockstep_writePages f _ 0 start).bind fun rest₁ rest₂ length => ?_
  refine (lockstep_addPageToMem f _ _ _ length).bind fun _ _ _ => ?_
  exact .after (blind_of_tidy (tidy_fileStackAdd _)) fun _ => .after (blind_call rfl) fun _ =>
    .blind (blind_call rfl)

theorem lockstep_appendData (f : FileId) (oldPages size n : Nat) (avail overflow : Int)
    (length : data₁.length = data₂.length) : Lockstep cfg w before₁ before₂
      (appendData cfg f oldPages size n avail overflow data₁)
      (appendData cfg f oldPages size n avail overflow data₂) (· = ·) := by
  unfold appendData
  have start : (data₁.take n).length = (data₂.take n).length := by
    rw [List.length_take, List.length_take, length]
  refine .ite (fun _ => .abort) fun _ => (lockstep_addPageToMem f _ _ _ start).bind fun _ _ _ =>
    .after (blind_call rfl) fun file => ?_
  refine (lockstep_writePages f _ oldPages ?_).bind fun rest₁ rest₂ length => ?_
  · rw [List.length_drop, List.length_drop, start]
  · exact .ite (fun _ => (lockstep_addPageToMem f _ _ _ length).bind fun _ _ _ => .ret rfl)
      fun _ => .ret rfl

theorem lockstep_fileAppend (fuel fd : Nat) (path : Path) (pid : Pid) (n : Nat)
    (length : data₁.length = data₂.length) : Lockstep cfg w before₁ before₂
      (fileAppend cfg fuel fd path pid n data₁) (fileAppend cfg fuel fd path pid n data₂)
        (· = ·) := by
  unfold fileAppend
  refine .after (blind_of_still (still_fileOpenCheck ..)) fun (reqErr, fileReq) => ?_
  refine .after (blind_of_still (still_deref _)) fun f => .after (blind_call rfl) fun _ =>
    .after (blind_call rfl) fun file => .after (blind_call rfl) fun _ => ?_
  refine .ite (fun _ => .blind (blind_call rfl)) fun _ => ?_
  unfold appendAccepted appendRest
  refine .after (blind_of_allocates (allocates_filePagesRenew ..)) fun _ => ?_
  refine (lockstep_appendData f _ _ n _ _ length).bind fun _ _ _ => ?_
  exact .after (blind_call rfl) fun _ => .after (blind_call rfl) fun _ => .blind (blind_call rfl)
end

end
end FileServer
