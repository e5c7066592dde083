import FileServer.Model.Client
import Mathlib.Data.List.Perm.Subperm

/-!
# Sections of the handlers

Which mutexes a handler holds where it gets at the data of the server, what it does with the pages that
it has taken, and which record it has looked at under its mutex.
-/

namespace FileServer
open Program

@[simp] def Op.guards : Op → List Mutex
  | .pageTake | .pageAdd _ => [.pages]
  | .hashTbAdd f | .hashTbSearch (.abspath f) .del => [.hashTB, .file f]
  | .hashTbSearch _ _ => [.hashTB]
  | .stackGetTop _ => [.hashTB, .filestack]
  | .stackMax | .stackCell _ | .stackPush _ | .stackDedup _ | .stackMove _ _ | .stackClear _
  | .stackSetTop _ => [.filestack]
  | .fileNIncrease _ | .fileNDecrease => [.fileN]
  | .load f | .store f _ => [.file f]
  | .unlock m => [m]
  | _ => []

/-- The mutexes that a handler has taken, the pages that it has taken from the list or from a freed
record, and the record that it has looked at last, as it must still be. -/
structure Grip where
  locks : List Mutex
  pages : List Nat
  seen : Option (FileId × MemFile)

namespace Grip

def empty : Grip := ⟨[], [], none⟩

def pagesSeen (g : Grip) : List Nat := g.seen.elim [] fun seen => seen.2.pages

def mayMove (g : Grip) : Op → Prop
  | .pageAdd page | .store _ (.pagesFill page) => page ∈ g.pages
  | .store f (.pagesRenew _ pages) => ∃ file, g.seen = some (f, file) ∧
      pages.Subperm (file.pages ++ g.pages)
  | .memcpy page _ _ _ | .memRead page _ => page ∈ g.pagesSeen
  | _ => True

def allows (g : Grip) (o : Op) : Prop := (∀ m ∈ o.guards, m ∈ g.locks) ∧ g.mayMove o

/-- A mutex is not taken twice, and a record does not change while its mutex is held. -/
def expects (g : Grip) : (o : Op) → o.Resp → Prop
  | .lock m, _ => m ∉ g.locks
  | .load f, file => ∀ file', g.seen = some (f, file') → file = file'
  | _, _ => True

def after (g : Grip) : (o : Op) → o.Resp → Grip
  | .lock m, _ => { g with locks := m :: g.locks }
  | .unlock (.file f), _ => { g with
      locks := g.locks.erase (.file f), seen := g.seen.filter fun seen => seen.1 ≠ f }
  | .unlock m, _ => { g with locks := g.locks.erase m }
  | .load f, file => { g with seen := some (f, file) }
  | .store f field, _ => { g with
      pages := match field with
        | .pagesFill page => g.pages.erase page
        | .pagesRenew _ pages => (g.pagesSeen ++ g.pages).diff pages
        | _ => g.pages
      seen := g.seen.map fun seen => if seen.1 = f then (f, seen.2.write field) else seen }
  | .pageTake, page => { g with pages := page.toList ++ g.pages }
  | .pageAdd page, _ => { g with pages := g.pages.erase page }
  | .free _, file => { g with pages := file.pages ++ g.pages }
  | _, _ => g

end Grip

def grips : Discipline Op Op.Resp Grip where
  pre := Grip.allows
  post g o x g' := g.expects o x ∧ g' = g.after o x

namespace Grip
variable {cfg : Config} {g g' g₁ g₂ : Grip} {f : FileId} {α : Type}

structure Keeps (g g' : Grip) : Prop where
  locks : g'.locks = g.locks
  pages : g.pages.Subperm g'.pages
  seen : g'.seen = g.seen

theorem Keeps.refl (g : Grip) : g.Keeps g := ⟨rfl, List.Subperm.refl _, rfl⟩

theorem Keeps.trans (first : g.Keeps g₁) (second : g₁.Keeps g₂) : g.Keeps g₂ :=
  ⟨second.locks.trans first.locks, first.pages.trans second.pages, second.seen.trans first.seen⟩

/-! ## Operations -/

theorem wp_call {o : Op} {post : o.Resp → Grip → Prop} :
    wp grips (call o) post g ↔ g.allows o ∧ ∀ x, g.expects o x → post x (g.after o x) := by
  simp [grips]

theorem wp_step {o : Op} {post : o.Resp → Grip → Prop} (guarded : ∀ m ∈ o.guards, m ∈ g.locks)
    (moves : g.mayMove o) (rest : ∀ x, g.expects o x → post x (g.after o x)) :
    wp grips (call o) post g :=
  wp_call.mpr ⟨⟨guarded, moves⟩, rest⟩

theorem wp_lock {m : Mutex} {post : Unit → Grip → Prop}
    (rest : m ∉ g.locks → post () { g with locks := m :: g.locks }) : wp grips (lock m) post g :=
  wp_step (by simp) (by trivial) fun _ => rest

theorem wp_unlock {m : Mutex} {locks : List Mutex} {post : Unit → Grip → Prop}
    (shared : ∀ f, m ≠ .file f) (last : g.locks = m :: locks)
    (rest : post () { g with locks := locks }) : wp grips (unlock m) post g := by
  have guarded : ∀ m' ∈ (Op.unlock m).guards, m' ∈ g.locks := by simp [last]
  refine wp_step guarded (by trivial) fun _ _ => ?_
  have same : g.after (.unlock m) () = { g with locks := locks } := by
    cases m with
    | file f => exact absurd rfl (shared f)
    | _ => simp [after, last]
  rw [same]
  exact rest

theorem wp_unlockFile {locks : List Mutex} {post : Unit → Grip → Prop}
    (last : g.locks = .file f :: locks)
    (rest : post () { g with locks := locks, seen := g.seen.filter fun seen => seen.1 ≠ f }) :
    wp grips (unlock (.file f)) post g := by
  refine wp_step (by simp [last]) (by trivial) fun _ _ => ?_
  have same : g.after (.unlock (.file f)) () =
      { g with locks := locks, seen := g.seen.filter fun seen => seen.1 ≠ f } := by
    simp [after, last]
  rw [same]
  exact rest

theorem wp_load {post : MemFile → Grip → Prop} (held : .file f ∈ g.locks)
    (rest : ∀ file, (∀ file', g.seen = some (f, file') → file = file') →
      post file { g with seen := some (f, file) }) : wp grips (load f) post g :=
  wp_step (by simpa using held) (by trivial) rest

theorem wp_writeNB {fd : Nat} {msg : Msg} {post : Unit → Grip → Prop} (rest : post () g) :
    wp grips (writeNB fd msg) post g :=
  wp_step (by simp) (by trivial) fun _ _ => rest

theorem wp_abort {e : Fault} {post : α → Grip → Prop} : wp grips (abort e : Handler α) post g :=
  ⟨⟨by simp, trivial⟩, fun x => x.elim⟩

theorem wp_spin {post : α → Grip → Prop} : wp grips (spin : Handler α) post g :=
  ⟨⟨by simp, trivial⟩, fun x => x.elim⟩

theorem wp_deref {p : Option FileId} {post : FileId → Grip → Prop} (rest : ∀ f, post f g) :
    wp grips (deref p) post g := by
  cases p with
  | none => exact wp_abort
  | some f => exact rest f

theorem wp_stack {o : Op} {post : o.Resp → Grip → Prop} (held : .filestack ∈ g.locks)
    (guards : o.guards = [.filestack]) (moves : g.mayMove o) (same : ∀ x, g.after o x = g)
    (rest : ∀ x, post x g) : wp grips (call o) post g := by
  refine wp_step ?_ moves fun x _ => ?_
  · rw [guards]
    exact List.forall_mem_singleton.mpr held
  · rw [same]
    exact rest x

/-! ## Pages and the table -/

theorem wp_pageAdd {page : Nat} {post : Unit → Grip → Prop} (held : page ∈ g.pages)
    (rest : post () { g with pages := g.pages.erase page }) : wp grips (pageAdd page) post g := by
  unfold pageAdd
  rw [wp_bind]
  apply wp_lock
  intro _
  rw [wp_bind]
  apply wp_step
  · exact List.forall_mem_singleton.mpr List.mem_cons_self
  · exact held
  intro _ _
  exact wp_unlock (by simp) rfl rest

theorem wp_pageTake {post : Option Nat → Grip → Prop}
    (rest : ∀ page : Option Nat, post page { g with pages := page.toList ++ g.pages }) :
    wp grips pageTake post g := by
  unfold pageTake
  rw [wp_bind]
  apply wp_lock
  intro _
  rw [wp_bind]
  apply wp_step
  · exact List.forall_mem_singleton.mpr List.mem_cons_self
  · trivial
  intro page _
  rw [wp_bind]
  exact wp_unlock (by simp) rfl (rest page)

theorem wp_pageAddAll {pages left : List Nat} (split : g.pages.Perm (pages ++ left)) :
    wp grips (pageAddAll pages)
      (fun _ g' => g'.locks = g.locks ∧ g'.pages.Perm left ∧ g'.seen = g.seen) g := by
  induction pages generalizing g with
  | nil => exact ⟨rfl, split, rfl⟩
  | cons page pages ih =>
      unfold pageAddAll
      rw [wp_bind]
      apply wp_pageAdd
      · exact split.mem_iff.mpr List.mem_cons_self
      · have fewer := split.erase page
        rw [List.cons_append, List.erase_cons_head] at fewer
        exact ih (g := { g with pages := g.pages.erase page }) fewer

theorem wp_hashGetFile {str : CStr} {flag : Flag} {post : Option FileId → Grip → Prop}
    (guarded : ∀ m ∈ (Op.hashTbSearch str flag).guards, m = .hashTB ∨ m ∈ g.locks)
    (rest : ∀ found, post found g) : wp grips (hashGetFile str flag) post g := by
  unfold hashGetFile
  rw [wp_bind]
  apply wp_lock
  intro _
  rw [wp_bind]
  apply wp_step
  · intro m guards
    exact List.mem_cons.mpr (guarded m guards)
  · trivial
  intro found _
  rw [wp_bind]
  exact wp_unlock (by simp) rfl (rest found)

theorem wp_search {path : Path} {post : Option FileId → Grip → Prop} (rest : ∀ found, post found g) :
    wp grips (hashGetFile (.buf path) .src) post g :=
  wp_hashGetFile (by simp) rest

theorem wp_fileSearchSilent {path : Path} {post : Int × Option FileId → Grip → Prop}
    (rest : ∀ found, post (if found.isSome then 0 else ENOENT, found) g) :
    wp grips (fileSearchSilent path) post g := by
  unfold fileSearchSilent
  rw [wp_bind]
  exact wp_search rest

theorem wp_fileFree : wp grips (fileFree f) (fun _ g' => g.Keeps g') g := by
  unfold fileFree
  rw [wp_bind]
  apply wp_step (by simp) (by trivial)
  intro file _
  split
  · rw [wp_bind]
    exact wp_abort
  · have split : (g.after (.free f) file).pages.Perm
        (file.pages.take file.pagesN ++ (file.pages.drop file.pagesN ++ g.pages)) := by
      rw [← List.append_assoc, List.take_append_drop]
      exact List.Perm.refl _
    refine wp_mono (wp_pageAddAll split) fun _ g' freed => ?_
    obtain ⟨locks, pages, seen⟩ := freed
    exact ⟨locks, (List.sublist_append_right _ _).subperm.trans pages.symm.subperm, seen⟩

/-! ## The stack of file names -/

theorem wp_fileStackDefragLoop {n i last : Nat} (held : .filestack ∈ g.locks) :
    wp grips (fileStackDefragLoop n i last) (fun _ g' => g' = g) g := by
  induction n generalizing i last with
  | zero => rfl
  | succ n ih =>
      unfold fileStackDefragLoop
      rw [wp_bind]
      apply wp_stack held (by rfl) (by trivial) fun _ => by rfl
      intro cell
      cases cell with
      | none => exact ih
      | some name =>
          rw [wp_bind]
          apply wp_search
          intro found
          cases found with
          | none =>
              rw [wp_bind]
              exact wp_stack held (by rfl) (by trivial) (fun _ => by rfl) fun _ => ih
          | some f =>
              rw [wp_bind]
              exact wp_stack held (by rfl) (by trivial) (fun _ => by rfl) fun _ => ih

theorem wp_fileStackDefrag : wp grips fileStackDefrag (fun _ g' => g' = g) g := by
  have held : Mutex.filestack ∈ Mutex.filestack :: g.locks := List.mem_cons_self
  unfold fileStackDefrag
  rw [wp_bind]
  apply wp_lock
  intro _
  rw [wp_bind]
  apply wp_stack held (by rfl) (by trivial) fun _ => by rfl
  intro max
  rw [wp_bind]
  refine wp_mono (wp_fileStackDefragLoop held) ?_
  rintro last _ rfl
  rw [wp_bind]
  apply wp_stack held (by rfl) (by trivial) fun _ => by rfl
  intro _
  exact wp_unlock (by simp) rfl rfl

theorem wp_fileStackGetTop {str : CStr} {post : Option FileId → Grip → Prop}
    (held : .filestack ∈ g.locks) (rest : ∀ found, post found g) :
    wp grips (fileStackGetTop str) post g := by
  unfold fileStackGetTop
  rw [wp_bind]
  apply wp_step (by simp) (by trivial)
  intro top _
  apply wp_ite
  · intro _
    exact rest none
  · intro _
    show wp _ (lock .hashTB >>= _) _ g
    rw [wp_bind]
    apply wp_lock
    intro _
    rw [wp_bind]
    apply wp_step
    · simp [held]
    · trivial
    intro f _
    rw [wp_bind]
    exact wp_unlock (by simp) rfl (rest (some f))

def Sound (g : Grip) : Prop := ∀ f file, g.seen = some (f, file) → .file f ∈ g.locks

theorem Sound.filter (sound : g.Sound) (untaken : .file f ∉ g.locks) :
    (g.seen.filter fun seen => seen.1 ≠ f) = g.seen := by
  cases known : g.seen with
  | none => rfl
  | some seen =>
      have other : seen.1 ≠ f := by
        rintro rfl
        exact untaken (sound _ _ known)
      simp [Option.filter, other]

theorem wp_fileDeleteFIFO {str : CStr} (sound : g.Sound) :
    wp grips (fileDeleteFIFO str) (fun _ g' => g.Keeps g') g := by
  unfold fileDeleteFIFO
  rw [wp_bind]
  apply wp_lock
  intro _
  rw [wp_bind]
  apply wp_fileStackGetTop List.mem_cons_self
  intro found
  cases found with
  | none =>
      rw [wp_bind]
      exact wp_unlock (by simp) rfl (.refl g)
  | some toDel =>
      rw [wp_bind]
      apply wp_lock
      intro untaken
      rw [wp_bind]
      apply wp_hashGetFile
      · simp
      intro _
      rw [wp_bind]
      apply wp_unlockFile rfl
      rw [wp_bind]
      apply wp_unlock (by simp) rfl
      rw [wp_bind]
      have same := sound.filter fun held => untaken (List.mem_cons_of_mem _ held)
      rw [same]
      exact wp_mono wp_fileFree fun _ g' keeps => keeps

theorem Sound.keeps (sound : g.Sound) (keeps : g.Keeps g') : g'.Sound := by
  intro f file known
  rw [keeps.seen] at known
  rw [keeps.locks]
  exact sound f file known

theorem wp_fileNDecrease {post : Unit → Grip → Prop} (rest : post () g) :
    wp grips fileNDecrease post g := by
  unfold fileNDecrease
  rw [wp_bind]
  apply wp_lock
  intro _
  rw [wp_bind]
  refine wp_step ?_ (by trivial) fun _ _ => ?_
  · exact List.forall_mem_singleton.mpr List.mem_cons_self
  · exact wp_unlock (by simp) rfl rest

theorem wp_fileNUpdate {nMax : Nat} (sound : g.Sound) :
    wp grips (fileNUpdate nMax) (fun _ g' => g.Keeps g') g := by
  unfold fileNUpdate
  rw [wp_bind]
  apply wp_lock
  intro _
  rw [wp_bind]
  refine wp_step ?_ (by trivial) fun counted _ => ?_
  · exact List.forall_mem_singleton.mpr List.mem_cons_self
  have release {g' : Grip} {ret : Int} (keeps : Keeps { g with locks := .fileN :: g.locks } g') :
      wp grips (do unlock .fileN; return ret) (fun _ g' => g.Keeps g') g' := by
    rw [wp_bind]
    exact wp_unlock (by simp) keeps.locks ⟨rfl, keeps.pages, keeps.seen⟩
  cases counted with
  | true => exact release (.refl _)
  | false =>
      show wp _ (fileDeleteFIFO .null >>= _) _ { g with locks := .fileN :: g.locks }
      rw [wp_bind]
      apply wp_mono
      · apply wp_fileDeleteFIFO
        exact fun f file known => List.mem_cons_of_mem _ (sound f file known)
      · intro ret g' keeps
        exact release keeps

/-! ## Getting pages -/

def gain (g : Grip) (pages : List Nat) : Grip := { g with pages := pages ++ g.pages }

theorem Keeps.gain (keeps : g.Keeps g') (pages : List Nat) : (g.gain pages).Keeps (g'.gain pages) :=
  ⟨keeps.locks, (List.subperm_append_left pages).mpr keeps.pages, keeps.seen⟩

theorem wp_pageGetLoop {str : CStr} {fuel : Nat} (sound : g.Sound) :
    wp grips (pageGetLoop str fuel) (fun page g' => (g.gain [page]).Keeps g') g := by
  induction fuel generalizing g with
  | zero => exact wp_spin
  | succ fuel ih =>
      have rest {g₁ : Grip} (keeps : g.Keeps g₁) :
          wp grips (pageRetry str fuel) (fun page g' => (g.gain [page]).Keeps g') g₁ := by
        unfold pageRetry
        rw [wp_bind]
        apply wp_pageTake
        intro page
        cases page with
        | some page => exact keeps.gain [page]
        | none =>
            apply wp_mono (ih (sound.keeps keeps))
            intro page g' gained
            exact (keeps.gain [page]).trans gained
      rw [pageGetLoop_succ]
      rw [wp_bind]
      apply wp_mono (wp_fileDeleteFIFO sound)
      intro deleted g₁ keeps
      apply wp_ite
      · intro _
        rw [wp_bind]
        exact wp_fileNDecrease (rest keeps)
      · intro _
        exact rest keeps

theorem wp_pageGet {str : CStr} {fuel : Nat} (sound : g.Sound) :
    wp grips (pageGet fuel str) (fun page g' => (g.gain [page]).Keeps g') g := by
  unfold pageGet
  rw [wp_bind]
  apply wp_pageTake
  intro page
  cases page with
  | some page => exact .refl _
  | none => exact wp_pageGetLoop sound

end Grip

end FileServer
