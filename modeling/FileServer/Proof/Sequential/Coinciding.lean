import FileServer.Program.Coincide
import FileServer.Proof.Concurrent.Conduct
import FileServer.Proof.Sequential.StackBounds

/-!
# Mutexes that a worker asks for again

A function of `FileMemory.c` asks for a mutex that its worker holds exactly if it comes to one of the states of
`Trapped`.
-/

namespace FileServer
open Program

def Relocks {W : Type} (w : W) (t : Server W) (o : Op) : Prop := ∃ m, o = .lock m ∧ t.owner m = some w

/-- `fileStackAdd` finds the stack full, where it is called with `adds`; or the scan picks a file whose
mutex `w` holds. -/
def Trapped {W : Type} (cfg : Config) (adds : Prop) (w : W) (t : Server W) : Op → Prop
  | .stackMax => adds ∧ t.store.fstack.top = t.store.fstack.max
  | .stackGetTop str => ∃ f t', Server.exec cfg w (.stackGetTop str) t = .ok (f, t') ∧
      t.owner (.file f) = some w
  | _ => False

def Op.lockless : Op → Bool
  | .lock _ | .unlock _ | .stackMax | .stackGetTop _ => false
  | _ => true

def HoldsNone {W : Type} (w : W) (n : Nat) (t : Server W) : Prop :=
  ∀ m : Mutex, n ≤ m.rank → t.owner m ≠ some w

section
variable {W α β : Type} {cfg : Config} {adds : Prop} {w : W} {s t t' : Server W} {m : Mutex} {n : Nat}
  {f : FileId}

abbrev Coin (cfg : Config) (adds : Prop) (w : W) (p : Handler α) (post : α → Server W → Prop)
    (t : Server W) : Prop :=
  (server W cfg).Coincide w (Relocks w) (Trapped cfg adds w) p post t

/-! ## The mutexes held -/

theorem HoldsNone.mono {n' : Nat} (holds : HoldsNone w n t) (le : n ≤ n') : HoldsNone w n' t :=
  fun m high => holds m (Nat.le_trans le high)

theorem HoldsNone.congr (holds : HoldsNone w n t) (same : t'.owner = t.owner) : HoldsNone w n t' :=
  fun m high => same ▸ holds m high

theorem HoldsNone.lock (holds : HoldsNone w n t) (low : m.rank < n) :
    HoldsNone w n (t.setOwner m (some w)) := by
  intro m' high
  have other : m' ≠ m := by
    rintro rfl
    exact Nat.lt_irrefl _ (Nat.lt_of_lt_of_le low high)
  rw [Server.setOwner_owner_of_ne _ _ other]
  exact holds m' high

theorem owner_restored (free : t.owner m = none) (same : t'.owner = (t.setOwner m (some w)).owner) :
    (t'.setOwner m none).owner = t.owner := by
  show Function.update t'.owner m none = t.owner
  rw [same]
  show Function.update (Function.update t.owner m (some w)) m none = t.owner
  rw [Function.update_idem, ← free, Function.update_eq_self]

/-! ## Operations -/

theorem coin_lock {q : Unit → Server W → Prop} (free : t.owner m ≠ some w)
    (done : t.owner m = none → q () (t.setOwner m (some w))) : Coin cfg adds w (lock m) q t := by
  refine Machine.Coincide.call (iff_of_false ?_ id) fun x t' step => ?_
  · rintro ⟨m', same, held⟩
    cases same
    exact free held
  · have taken : Server.exec cfg w (.lock m) t = .ok ((), t') := step
    obtain ⟨-, unowned, rfl⟩ := exec_lock taken
    exact done unowned

theorem coin_unlock {q : Unit → Server W → Prop} (done : q () (t.setOwner m none)) :
    Coin cfg adds w (unlock m) q t := by
  refine Machine.Coincide.call (iff_of_false ?_ id) fun x t' step => ?_
  · rintro ⟨m', same, -⟩
    cases same
  · have given : Server.exec cfg w (.unlock m) t = .ok ((), t') := step
    cases exec_unlock given
    exact done

theorem not_event (cfg : Config) (adds : Prop) (w : W) {o : Op} (lockless : o.lockless = true)
    (t : Server W) : ¬Relocks w t o ∧ ¬Trapped cfg adds w t o := by
  constructor
  · rintro ⟨m, rfl, -⟩
    cases lockless
  · cases o with
    | stackMax | stackGetTop str => cases lockless
    | _ => exact id

theorem coin_call {o : Op} {post : o.Resp → Server W → Prop} (lockless : o.lockless = true)
    (done : ∀ x t', Server.exec cfg w o t = .ok (x, t') → t'.owner = t.owner → post x t') :
    Coin cfg adds w (call o) post t := by
  refine Machine.Coincide.call ?_ fun x t' step => done x t' step (exec_owner ?_ ?_ step)
  · have none := not_event cfg adds w lockless t
    exact iff_of_false none.1 none.2
  · rintro m rfl
    cases lockless
  · rintro m rfl
    cases lockless

theorem coin_all {p : Handler α} (all : p.All (·.lockless = true)) :
    Coin cfg adds w p (fun _ t' => t'.owner = t.owner) t := by
  refine Machine.Coincide.all (R := fun t t' => t'.owner = t.owner) all
    (fun t o lockless => not_event cfg adds w lockless t) (fun _ => rfl) ?_
  intro o t t₁ x s' lockless step later
  refine later.trans (exec_owner ?_ ?_ step)
  · rintro m rfl
    cases lockless
  · rintro m rfl
    cases lockless

theorem coin_ret {a : α} {post : α → Server W → Prop} (done : post a t) :
    Coin cfg adds w (pure a : Handler α) post t :=
  Machine.Coincide.ret done

theorem coin_locked {p : Handler α} {k : α → Handler β} {post : β → Server W → Prop}
    (free : t.owner m ≠ some w)
    (body : Coin cfg adds w p (fun _ t' => t'.owner = (t.setOwner m (some w)).owner)
      (t.setOwner m (some w)))
    (rest : ∀ a t', t'.owner = t.owner → Coin cfg adds w (k a) post t') :
    Coin cfg adds w (do
      lock m
      let a ← p
      unlock m
      k a) post t := by
  refine (coin_lock (q := fun _ t' => t.owner m = none ∧ t' = t.setOwner m (some w)) free
    fun unowned => ⟨unowned, rfl⟩).bind ?_
  rintro _ _ ⟨unowned, rfl⟩
  refine body.bind fun a t' same => ?_
  refine (coin_unlock (q := fun _ t' => t'.owner = t.owner) (owner_restored unowned same)).bind ?_
  exact fun _ t'' same => rest a t'' same

theorem coin_section {p : Handler α} (free : t.owner m ≠ some w)
    (body : Coin cfg adds w p (fun _ t' => t'.owner = (t.setOwner m (some w)).owner)
      (t.setOwner m (some w))) :
    Coin cfg adds w (do
      lock m
      let a ← p
      unlock m
      return a) (fun _ t' => t'.owner = t.owner) t :=
  coin_locked free body fun _ _ same => coin_ret same

theorem coin_final {p : Handler Unit} (free : t.owner m ≠ some w)
    (body : Coin cfg adds w p (fun _ t' => t'.owner = (t.setOwner m (some w)).owner)
      (t.setOwner m (some w))) :
    Coin cfg adds w (do
      lock m
      p
      unlock m) (fun _ t' => t'.owner = t.owner) t := by
  have whole := coin_section free body
  have shape : (do lock m; let a ← p; unlock m; return a : Handler Unit) = (do lock m; p; unlock m) := by
    simp
  rwa [shape] at whole

/-! ## `FileMemory.c` -/

abbrev Restored (t : Server W) (_ : α) (t' : Server W) : Prop := t'.owner = t.owner

theorem coin_pageAdd (page : Nat) (holds : HoldsNone w 4 t) : Coin cfg adds w (pageAdd page) (Restored t) t :=
  coin_final (holds .pages (Nat.le_refl 4)) (coin_call rfl fun _ _ _ same => same)

theorem coin_pageTake (holds : HoldsNone w 4 t) : Coin cfg adds w pageTake (Restored t) t :=
  coin_section (holds .pages (Nat.le_refl 4)) (coin_call rfl fun _ _ _ same => same)

theorem coin_hashGetFile (str : CStr) (flag : Flag) (holds : HoldsNone w 3 t) :
    Coin cfg adds w (hashGetFile str flag) (Restored t) t :=
  coin_section (holds .hashTB (Nat.le_refl 3)) (coin_call rfl fun _ _ _ same => same)

theorem coin_pageAddAll (pages : List Nat) (holds : HoldsNone w 4 t) :
    Coin cfg adds w (pageAddAll pages) (Restored t) t := by
  induction pages generalizing t with
  | nil => exact coin_ret rfl
  | cons page pages ih =>
      exact (coin_pageAdd page holds).bind fun _ t' same =>
        (ih (holds.congr same)).mono fun _ _ later => later.trans same

theorem coin_abort {e : Fault} : Coin cfg adds w (abort e : Handler α) (fun _ _ => False) t := by
  have call : Coin cfg adds w (call (.abort e)) (fun _ _ => False) t :=
    coin_call rfl fun x _ _ _ => Empty.elim x
  exact call.bind (k := fun x => x.elim) fun _ _ => False.elim

theorem coin_spin : Coin cfg adds w (spin : Handler α) (fun _ _ => False) t := by
  have call : Coin cfg adds w (call .spin) (fun _ _ => False) t :=
    coin_call rfl fun x _ _ _ => Empty.elim x
  exact call.bind (k := fun x => x.elim) fun _ _ => False.elim

theorem coin_fileFree (f : FileId) (holds : HoldsNone w 4 t) :
    Coin cfg adds w (fileFree f) (Restored t) t := by
  unfold fileFree
  refine (coin_call rfl fun _ _ _ same => same : Coin cfg adds w (call (.free f)) (Restored t) t).bind ?_
  intro file t' same
  have back {t₁ : Server W} (same : t₁.owner = t.owner) :
      Coin cfg adds w (pageAddAll (file.pages.take file.pagesN)) (Restored t) t₁ :=
    (coin_pageAddAll _ (holds.congr same)).mono fun _ _ later => later.trans same
  exact .ite (fun _ => coin_abort.bind fun _ _ => False.elim) fun _ => back same

theorem unowned_of_run {x : Unit} (ran : (server W cfg).run w (lock m) t = .ok (x, t')) :
    t.owner m = none := by
  have taken : Server.exec cfg w (.lock m) t = .ok ((), t') :=
    (Machine.run_perform (server W cfg) w (.lock m) t).symm.trans ran
  exact (exec_lock taken).2.1

theorem coin_pick {str : CStr} {k : FileId → Handler β} {post : β → Server W → Prop}
    (rest : ∀ f t', t'.owner = ((t.setOwner .hashTB none).setOwner (.file f) (some w)).owner →
      t.owner (.file f) = none → Coin cfg adds w (k f) post t') :
    Coin cfg adds w (do
      let f ← call (.stackGetTop str)
      unlock .hashTB
      lock (.file f)
      k f) post t := by
  have sameOwner {f : FileId} {t₁ : Server W}
      (picked : Server.exec cfg w (.stackGetTop str) t = .ok (f, t₁)) : t₁.owner = t.owner :=
    exec_owner (o := .stackGetTop str) (fun m same => by cases same) (fun m same => by cases same) picked
  have apart (f : FileId) : Mutex.file f ≠ .hashTB := nofun
  by_cases trapped : Trapped cfg adds w t (.stackGetTop str)
  · obtain ⟨f, t₁, picked, held⟩ := id trapped
    have given : Server.exec cfg w (.unlock .hashTB) t₁ = .ok ((), t₁.setOwner .hashTB none) := rfl
    have held' : (t₁.setOwner .hashTB none).owner (.file f) = some w := by
      rw [Server.setOwner_owner_of_ne _ _ (apart f), sameOwner picked]
      exact held
    refine .stop ⟨.lock (.file f), t₁.setOwner .hashTB none, .later picked (.later given .here), _, rfl, held'⟩
      ⟨.stackGetTop str, t, .here, trapped⟩ fun b t' ends => ?_
    rw [Machine.run_bind, Outcome.andThen_eq_ok] at ends
    obtain ⟨⟨f', t₁'⟩, picked', ends⟩ := ends
    change (server W cfg).run w (perform (.stackGetTop str)) t = _ at picked'
    rw [Machine.run_perform] at picked'
    cases picked.symm.trans picked'
    dsimp only at ends
    rw [Machine.run_bind, Outcome.andThen_eq_ok] at ends
    obtain ⟨⟨_, t₂⟩, given', ends⟩ := ends
    change (server W cfg).run w (perform (.unlock .hashTB)) t₁ = _ at given'
    rw [Machine.run_perform] at given'
    cases given.symm.trans given'
    dsimp only at ends
    rw [Machine.run_bind, Outcome.andThen_eq_ok] at ends
    obtain ⟨⟨_, t₃⟩, taken, -⟩ := ends
    cases held'.symm.trans (unowned_of_run taken)
  · have pick : Coin cfg adds w (call (.stackGetTop str))
        (fun f t₁ => t₁.owner = t.owner ∧ t.owner (.file f) ≠ some w) t := by
      refine Machine.Coincide.call (iff_of_false ?_ trapped) fun f t₁ picked => ?_
      · rintro ⟨m, same, -⟩
        cases same
      · exact ⟨sameOwner picked, fun held => trapped ⟨f, t₁, picked, held⟩⟩
    refine pick.bind fun f t₁ ⟨same, free⟩ => ?_
    refine (coin_unlock (q := fun _ t₂ => t₂ = t₁.setOwner .hashTB none) rfl).bind ?_
    rintro _ _ rfl
    have unheld : (t₁.setOwner .hashTB none).owner (.file f) = t.owner (.file f) := by
      rw [Server.setOwner_owner_of_ne _ _ (apart f), same]
    refine (coin_lock (q := fun _ t₂ => t.owner (.file f) = none ∧
      t₂ = (t₁.setOwner .hashTB none).setOwner (.file f) (some w)) (unheld ▸ free) fun unowned =>
        ⟨unheld.symm.trans unowned, rfl⟩).bind ?_
    rintro _ _ ⟨unowned, rfl⟩
    refine rest f _ ?_ unowned
    show Function.update (Function.update t₁.owner .hashTB none) (.file f) (some w) = _
    rw [same]
    rfl

theorem fileDeleteFIFO_eq (str : CStr) : fileDeleteFIFO str = (do
    lock .filestack
    let top ← call (.stackTop str)
    if top = 0 then do
      unlock .filestack
      return -1
    else do
      lock .hashTB
      let f ← call (.stackGetTop str)
      unlock .hashTB
      lock (.file f)
      let _ ← hashGetFile (.abspath f) .del
      unlock (.file f)
      unlock .filestack
      fileFree f
      return 0) := by
  unfold fileDeleteFIFO fileStackGetTop
  simp only [LawfulMonad.bind_assoc]
  congr 1
  funext _
  congr 1
  funext top
  split
  · simp only [pure_bind]
  · simp only [LawfulMonad.bind_assoc, pure_bind]

theorem coin_fileDeleteFIFO (str : CStr) (holds : HoldsNone w 2 t) :
    Coin cfg adds w (fileDeleteFIFO str) (Restored t) t := by
  rw [fileDeleteFIFO_eq]
  obtain ⟨t₀, named⟩ : ∃ t₀, t.setOwner .filestack (some w) = t₀ := ⟨_, rfl⟩
  have inside : HoldsNone w 3 t₀ := named ▸ (holds.mono (Nat.le_succ 2)).lock (Nat.le_refl 3)
  refine (coin_lock (q := fun _ t₁ => t.owner .filestack = .none ∧ t₁ = t₀)
    (holds .filestack (Nat.le_refl 2)) fun unowned => ⟨unowned, named⟩).bind ?_
  rintro _ t₁ ⟨unowned, rfl⟩
  have ended {t₂ : Server W} (same : t₂.owner = t₁.owner) : (t₂.setOwner .filestack .none).owner = t.owner :=
    owner_restored unowned (named ▸ same)
  have top : Coin cfg adds w (call (.stackTop str)) (Restored t₁) t₁ := coin_call rfl fun _ _ _ same => same
  refine top.bind fun top t₂ same₂ => .ite (fun _ => ?_) fun _ => ?_
  · have give : Coin cfg adds w (unlock .filestack) (Restored t) t₂ := coin_unlock (ended same₂)
    exact give.bind fun _ _ same => coin_ret same
  · have inside₂ := inside.congr same₂
    refine (coin_lock (q := fun _ t₃ => t₂.owner .hashTB = .none ∧ t₃ = t₂.setOwner .hashTB (some w))
      (inside₂ .hashTB (Nat.le_refl 3)) fun unowned => ⟨unowned, rfl⟩).bind ?_
    rintro _ _ ⟨unownedTB, rfl⟩
    refine coin_pick fun f t₄ same₄ unownedFile => ?_
    have backTB := owner_restored (w := w) unownedTB rfl
    have same₄' : t₄.owner = (t₂.setOwner (.file f) (some w)).owner := by
      rw [same₄]
      show Function.update ((t₂.setOwner .hashTB (some w)).setOwner .hashTB .none).owner _ _ = _
      rw [backTB]
      rfl
    have unownedFile' : t₂.owner (.file f) = .none := by
      rwa [Server.setOwner_owner_of_ne _ _ (nofun : Mutex.file f ≠ .hashTB)] at unownedFile
    have inside₄ : HoldsNone w 3 t₄ :=
      (inside₂.lock (m := .file f) (Nat.zero_lt_succ 2)).congr same₄'
    refine (coin_hashGetFile _ _ inside₄).bind fun _ t₅ same₅ => ?_
    have giveFile : Coin cfg adds w (unlock (.file f)) (Restored t₂) t₅ :=
      coin_unlock (owner_restored unownedFile' (same₅.trans same₄'))
    refine giveFile.bind fun _ t₆ same₆ => ?_
    have give : Coin cfg adds w (unlock .filestack) (Restored t) t₆ := coin_unlock (ended (same₆.trans same₂))
    refine give.bind fun _ t₇ same₇ => ?_
    refine (coin_fileFree f ((holds.mono (Nat.le_add_right 2 2)).congr same₇)).bind fun _ t₈ same₈ => ?_
    exact coin_ret (same₈.trans same₇)

theorem coin_fileNDecrease (holds : HoldsNone w 1 t) : Coin cfg adds w fileNDecrease (Restored t) t :=
  coin_final (holds .fileN (Nat.le_refl 1)) (coin_call rfl fun _ _ _ same => same)

theorem coin_fileNUpdate (nMax : Nat) (holds : HoldsNone w 1 t) :
    Coin cfg adds w (fileNUpdate nMax) (Restored t) t := by
  obtain ⟨t₀, named⟩ : ∃ t₀, t.setOwner .fileN (some w) = t₀ := ⟨_, rfl⟩
  have inside : HoldsNone w 2 t₀ := named ▸ (holds.mono (Nat.le_succ 1)).lock (Nat.le_refl 2)
  refine (coin_lock (q := fun _ t₁ => t.owner .fileN = .none ∧ t₁ = t₀)
    (holds .fileN (Nat.le_refl 1)) fun unowned => ⟨unowned, named⟩).bind ?_
  rintro _ t₁ ⟨unowned, rfl⟩
  have rest (ret : Int) {t₂ : Server W} (same : t₂.owner = t₁.owner) :
      Coin cfg adds w (do unlock .fileN; return ret) (Restored t) t₂ := by
    have give : Coin cfg adds w (unlock .fileN) (Restored t) t₂ :=
      coin_unlock (owner_restored unowned (named ▸ same))
    exact give.bind fun _ _ same => coin_ret same
  have increase : Coin cfg adds w (call (.fileNIncrease nMax)) (Restored t₁) t₁ :=
    coin_call rfl fun _ _ _ same => same
  refine increase.bind fun counted t₂ same => .ite (fun _ => rest 1 same) fun _ => ?_
  exact (coin_fileDeleteFIFO .null (inside.congr same)).bind fun ret t₃ later => rest ret (later.trans same)

theorem coin_pageGetLoop (str : CStr) (fuel : Nat) (holds : HoldsNone w 1 t) :
    Coin cfg adds w (pageGetLoop str fuel) (Restored t) t := by
  induction fuel generalizing t with
  | zero => exact coin_spin.mono fun _ _ => False.elim
  | succ fuel ih =>
      rw [pageGetLoop_succ]
      refine (coin_fileDeleteFIFO str (holds.mono (Nat.le_succ 1))).bind fun deleted t₁ same₁ => ?_
      have take {t₂ : Server W} (same₂ : t₂.owner = t.owner) : Coin cfg adds w (pageRetry str fuel)
          (Restored t) t₂ := by
        refine (coin_pageTake ((holds.mono (Nat.le_add_right 1 3)).congr same₂)).bind fun page t₃ same₃ => ?_
        cases page with
        | some page => exact coin_ret (same₃.trans same₂)
        | none => exact (ih (holds.congr (same₃.trans same₂))).mono fun _ _ later => later.trans (same₃.trans same₂)
      refine .ite (fun _ => ?_) fun _ => by exact take same₁
      refine (coin_fileNDecrease (holds.congr same₁)).bind fun _ t₂ same₂ => ?_
      exact take (same₂.trans same₁)

theorem coin_pageGet (fuel : Nat) (str : CStr) (holds : HoldsNone w 1 t) :
    Coin cfg adds w (pageGet fuel str) (Restored t) t := by
  unfold pageGet
  refine (coin_pageTake (holds.mono (Nat.le_add_right 1 3))).bind fun page t₁ same => ?_
  cases page with
  | some page => exact coin_ret same
  | none => exact (coin_pageGetLoop str fuel (holds.congr same)).mono fun _ _ later => later.trans same

theorem coin_filePagesFill (fuel : Nat) (f : FileId) (n : Nat) (holds : HoldsNone w 1 t) :
    Coin cfg adds w (filePagesFill fuel f n) (Restored t) t := by
  induction n generalizing t with
  | zero => exact coin_ret rfl
  | succ n ih =>
      unfold filePagesFill
      refine (coin_pageGet fuel _ holds).bind fun page t₁ same₁ => ?_
      have fill : Coin cfg adds w (store f (.pagesFill page)) (Restored t) t₁ :=
        coin_call rfl fun _ _ _ same => same.trans same₁
      exact fill.bind fun _ t₂ same₂ => (ih (holds.congr same₂)).mono fun _ _ later => later.trans same₂

theorem coin_filePagesExtra (fuel : Nat) (f : FileId) (n : Nat) (holds : HoldsNone w 1 t) :
    Coin cfg adds w (filePagesExtra fuel f n) (Restored t) t := by
  induction n generalizing t with
  | zero => exact coin_ret rfl
  | succ n ih =>
      unfold filePagesExtra
      refine (coin_pageGet fuel _ holds).bind fun page t₁ same₁ => ?_
      exact (ih (holds.congr same₁)).bind fun pages t₂ same₂ => coin_ret (same₂.trans same₁)

theorem coin_fileStackDefragLoop (n i last : Nat) (holds : HoldsNone w 3 t) :
    Coin cfg adds w (fileStackDefragLoop n i last) (Restored t) t := by
  induction n generalizing i last t with
  | zero => exact coin_ret rfl
  | succ n ih =>
      have onward {t₁ : Server W} (i last : Nat) (same : t₁.owner = t.owner) :
          Coin cfg adds w (fileStackDefragLoop n i last) (Restored t) t₁ :=
        (ih i last (holds.congr same)).mono fun _ _ later => later.trans same
      unfold fileStackDefragLoop
      have dedup : Coin cfg adds w (call (.stackDedup i)) (Restored t) t := coin_call rfl fun _ _ _ same => same
      refine dedup.bind fun cell t₁ same₁ => ?_
      cases cell with
      | none => exact onward _ _ same₁
      | some name =>
          refine (coin_hashGetFile _ _ (holds.congr same₁)).bind fun found t₂ same₂ => ?_
          cases found with
          | some f =>
              have move : Coin cfg adds w (call (.stackMove last i)) (Restored t) t₂ :=
                coin_call rfl fun _ _ _ same => same.trans (same₂.trans same₁)
              exact move.bind fun _ t₃ same₃ => onward _ _ same₃
          | none =>
              have clear : Coin cfg adds w (call (.stackClear i)) (Restored t) t₂ :=
                coin_call rfl fun _ _ _ same => same.trans (same₂.trans same₁)
              exact clear.bind fun _ t₃ same₃ => onward _ _ same₃

theorem coin_stackMax {q : Nat → Server W → Prop} (room : adds → t.store.fstack.top ≠ t.store.fstack.max)
    (done : q t.store.fstack.max t) : Coin cfg adds w (call .stackMax) q t := by
  refine Machine.Coincide.call (iff_of_false ?_ fun full => room full.1 full.2) fun max t' step => ?_
  · rintro ⟨m, same, -⟩
    cases same
  · cases step
    exact done

theorem coin_fileStackDefrag (idle : ¬adds) (holds : HoldsNone w 2 t) :
    Coin cfg adds w fileStackDefrag (Restored t) t := by
  have shape : fileStackDefrag = (do
      lock .filestack
      (do
        let max ← call .stackMax
        let last ← fileStackDefragLoop max 0 0
        call (.stackSetTop last))
      unlock .filestack) := by
    simp only [fileStackDefrag, LawfulMonad.bind_assoc]
  rw [shape]
  refine coin_final (holds .filestack (Nat.le_refl 2)) ?_
  have inside : HoldsNone w 3 (t.setOwner .filestack (some w)) :=
    (holds.mono (Nat.le_succ 2)).lock (Nat.le_refl 3)
  refine (coin_stackMax (q := Restored (t.setOwner .filestack (some w))) (fun here => (idle here).elim)
    rfl).bind fun max t₁ same₁ => ?_
  refine (coin_fileStackDefragLoop max 0 0 (inside.congr same₁)).bind fun last t₂ same₂ => ?_
  exact coin_call rfl fun _ _ _ same => same.trans (same₂.trans same₁)

/-- On a full stack `fileStackDefrag` asks for the mutex of the stack again. -/
theorem coin_full {k : Handler β} {post : β → Server W → Prop} (here : adds)
    (held : t.owner .filestack = some w) (full : t.store.fstack.top = t.store.fstack.max) :
    Coin cfg adds w (do
      let max ← call .stackMax
      if t.store.fstack.top = max then fileStackDefrag
      k) post t := by
  refine .stop ⟨.lock .filestack, t, .later (x := t.store.fstack.max) rfl ?_, _, rfl, held⟩
    ⟨.stackMax, t, .here, here, full⟩ fun b t' ends => ?_
  · show Machine.Visits _ w (if _ then _ else _) t _ t
    rw [if_pos full]
    exact .here
  · rw [Machine.run_bind, Outcome.andThen_eq_ok] at ends
    obtain ⟨⟨max, t₁⟩, read, ends⟩ := ends
    cases read
    dsimp only at ends
    rw [if_pos full, Machine.run_bind, Outcome.andThen_eq_ok] at ends
    obtain ⟨⟨⟨⟩, t₂⟩, ran, -⟩ := ends
    rw [fileStackDefrag, Machine.run_bind, Outcome.andThen_eq_ok] at ran
    obtain ⟨⟨_, t₃⟩, taken, -⟩ := ran
    cases held.symm.trans (unowned_of_run taken)

theorem coin_fileStackAdd (str : CStr) (here : adds) (holds : HoldsNone w 2 t) :
    Coin cfg adds w (fileStackAdd str) (Restored t) t := by
  obtain ⟨t₀, named⟩ : ∃ t₀, t.setOwner .filestack (some w) = t₀ := ⟨_, rfl⟩
  refine (coin_lock (q := fun _ t₁ => t.owner .filestack = none ∧ t₁ = t₀)
    (holds .filestack (Nat.le_refl 2)) fun unowned => ⟨unowned, named⟩).bind ?_
  rintro _ t₁ ⟨unowned, rfl⟩
  have held : t₁.owner .filestack = some w := by rw [← named, Server.setOwner_owner_self]
  have top : Coin cfg adds w (call (.stackTop .null)) (fun top t₂ => (top, t₂) = (t₁.store.fstack.top, t₁)) t₁ := by
    refine Machine.Coincide.call (iff_of_false (not_event cfg adds w rfl t₁).1 id) fun top t₂ step => ?_
    exact (Outcome.ok.inj step).symm
  refine top.bind fun top t₂ same => ?_
  obtain ⟨rfl, rfl⟩ := Prod.mk.inj same
  by_cases full : t₂.store.fstack.top = t₂.store.fstack.max
  · exact coin_full here held full
  · refine (coin_stackMax (q := fun max t₃ => (max, t₃) = (t₂.store.fstack.max, t₂)) (fun _ => full)
      rfl).bind fun max t₃ same => ?_
    obtain ⟨rfl, rfl⟩ := Prod.mk.inj same
    rw [if_neg full]
    have push : Coin cfg adds w (call (.stackPush str)) (Restored t₃) t₃ := coin_call rfl fun _ _ _ same => same
    refine push.bind fun _ t₂ same => coin_unlock (owner_restored (w := w) unowned ?_)
    rw [named]
    exact same

end

end FileServer
