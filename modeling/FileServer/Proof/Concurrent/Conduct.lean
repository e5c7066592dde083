import FileServer.Model.Client
import Mathlib.Data.Set.Insert

/-!
# What the handlers keep to

Which mutexes a handler holds when it asks for another one, which records it follows a pointer to, and
how it accounts for the files it counts: what can be read off the text of the handlers, whatever the
other workers do.
-/

namespace FileServer
open Program

/-- What a handler has in hand: the mutexes it has taken, the records it has got a pointer to, the
record it has made, the one it has taken out of the table, the one it has picked from the stack, whether
it has asked for a record's mutex that it held, and how many files it has counted that do not hold
pages. -/
structure Hand where
  locks : List Mutex
  refs : Set FileId
  fresh : Option FileId
  doomed : Option FileId
  victim : Option FileId
  again : Prop
  credit : Nat

def Hand.empty : Hand := ⟨[], ∅, none, none, none, False, 0⟩

def Mutex.rank : Mutex → Nat
  | .file _ => 0
  | .fileN => 1
  | .filestack => 2
  | .hashTB => 3
  | .pages => 4

def CStr.record : CStr → Option FileId
  | .abspath f => some f
  | _ => none

def Op.record : Op → Option FileId
  | .lock (.file f) | .unlock (.file f) | .load f | .store f _ | .free f | .hashTbAdd f => some f
  | .hashTbSearch str _ | .stackGetTop str | .stackPush str => str.record
  | _ => none

def Op.gives : (o : Op) → o.Resp → Option FileId
  | .newFile _, f => some f
  | .hashTbSearch _ _, found => found
  | .stackGetTop _, f => some f
  | _, _ => none

def Op.silent : Op → Bool
  | .pageTake | .pageAdd _ | .memcpy _ _ _ _ | .memRead _ _ | .stackTop _ | .stackMax | .stackCell _
  | .stackDedup _ | .stackMove _ _ | .stackClear _ | .stackSetTop _ | .writeNB _ _ => true
  | _ => false

namespace Hand

def Below (h : Hand) (n : Nat) : Prop := ∀ m ∈ h.locks, m.rank ≤ n

/-- A record's mutex is the first one taken, or that of the victim, or that of a new record. -/
def mayLock (h : Hand) : Mutex → Prop
  | .file f => h.locks = [] ∨ .filestack ∈ h.locks ∧ h.Below 2 ∧ h.victim = some f ∨
      h.locks = [.hashTB] ∧ h.fresh = some f
  | m => h.Below m.rank

def allows (cfg : Config) (counting : Prop) (h : Hand) (o : Op) : Prop :=
  (∀ f, o.record = some f → f ∈ h.refs) ∧ match o with
  | .lock m => h.mayLock m
  | .unlock m => m ∈ h.locks
  | .abort e => ∀ f, e ≠ .deadFile f
  | .free f => h.doomed = some f ∧ (.file f ∈ h.locks → h.again)
  | .hashTbAdd f => h.fresh = some f
  | .hashTbSearch str .del => str.record.isSome
  | .fileNIncrease max => max = cfg.fileMax
  | .fileNDecrease => counting → 0 < h.credit
  | .store _ (.pagesN n) => counting → n ≠ 0 → 0 < h.credit
  | _ => True

def expects (counting : Prop) (h : Hand) : (o : Op) → o.Resp → Prop
  | .stackTop _, top => counting → .fileN ∈ h.locks → top ≠ 0
  | .free _, file => counting → h.locks ≠ [] → file.pagesN ≠ 0
  | _, _ => True

def see (h : Hand) (found : Option FileId) : Hand := { h with refs := h.refs ∪ {f | found = some f} }

def after (h : Hand) : (o : Op) → o.Resp → Hand
  | .lock .filestack, _ => { h with locks := .filestack :: h.locks, victim := none }
  | .lock (.file f), _ => { h with
      locks := .file f :: h.locks, again := h.again ∨ .file f ∈ h.locks }
  | .lock m, _ => { h with locks := m :: h.locks }
  | .unlock m, _ => { h with locks := h.locks.erase m }
  | .newFile _, f => { h with refs := insert f h.refs, fresh := some f }
  | .hashTbAdd _, _ => { h with fresh := none }
  | .hashTbSearch _ .src, found => h.see found
  | .hashTbSearch str .del, found => { h.see found with doomed := str.record }
  | .stackGetTop _, f => { h with refs := insert f h.refs, victim := some f }
  | .free f, file => { h with
      refs := {g | g ∈ h.refs ∧ (g = f → .file f ∈ h.locks)}, doomed := none
      credit := if file.pagesN ≠ 0 then h.credit + 1 else h.credit }
  | .fileNIncrease _, counted => { h with credit := if counted then h.credit + 1 else h.credit }
  | .fileNDecrease, _ => { h with credit := h.credit - 1 }
  | .store _ (.pagesN n), _ => { h with credit := if n ≠ 0 then h.credit - 1 else h.credit }
  | _, _ => h

end Hand

def conduct (cfg : Config) (counting : Prop) : Discipline Op Op.Resp Hand where
  pre := Hand.allows cfg counting
  post h o x h' := h.expects counting o x ∧ h' = h.after o x

section
variable {cfg : Config} {counting : Prop} {h h' h₁ h₂ : Hand} {f : FileId} {α : Type}

/-! ## Operations -/

theorem expects_uncounted {o : Op} (x : o.Resp) : h.expects False o x := by
  cases o <;> first | trivial | exact False.elim

theorem wp_call {o : Op} {post : o.Resp → Hand → Prop} :
    wp (conduct cfg counting) (call o) post h ↔
      h.allows cfg counting o ∧ ∀ x, h.expects counting o x → post x (h.after o x) := by
  simp [conduct]

theorem wp_silent {o : Op} {post : o.Resp → Hand → Prop} (silent : o.silent = true)
    (rest : ∀ x, post x h) : wp (conduct cfg counting) (call o) post h := by
  rw [wp_call]
  cases o <;> cases silent <;> exact ⟨⟨nofun, trivial⟩, fun x _ => rest x⟩

theorem wp_lock {m : Mutex} {post : Unit → Hand → Prop} (shared : 0 < m.rank) (below : h.Below m.rank)
    (rest : post () (h.after (.lock m) ())) : wp (conduct cfg counting) (lock m) post h := by
  unfold lock
  rw [wp_call]
  cases m with
  | file f => cases shared
  | _ => exact ⟨⟨nofun, below⟩, fun _ _ => rest⟩

theorem wp_lockFile {post : Unit → Hand → Prop} (mayLock : h.mayLock (.file f)) (known : f ∈ h.refs)
    (rest : post () (h.after (.lock (.file f)) ())) :
    wp (conduct cfg counting) (lock (.file f)) post h := by
  unfold lock
  rw [wp_call]
  refine ⟨⟨?_, mayLock⟩, fun _ _ => rest⟩
  rintro g ⟨⟩
  exact known

theorem wp_unlock {m : Mutex} {post : Unit → Hand → Prop} (held : m ∈ h.locks)
    (reads : ∀ f, m = .file f → f ∈ h.refs) (rest : post () { h with locks := h.locks.erase m }) :
    wp (conduct cfg counting) (unlock m) post h := by
  unfold unlock
  rw [wp_call]
  refine ⟨⟨fun f same => ?_, held⟩, fun _ _ => rest⟩
  cases m <;> cases same
  exact reads _ rfl

theorem wp_unlock_last {m : Mutex} {locks : List Mutex} {post : Unit → Hand → Prop}
    (shared : 0 < m.rank) (last : h.locks = m :: locks) (rest : post () { h with locks := locks }) :
    wp (conduct cfg counting) (unlock m) post h := by
  apply wp_unlock
  · rw [last]
    exact List.mem_cons_self
  · rintro f rfl
    cases shared
  · rw [last, List.erase_cons_head]
    exact rest

theorem wp_unlockFile {locks : List Mutex} {post : Unit → Hand → Prop}
    (last : h.locks = .file f :: locks) (known : f ∈ h.refs)
    (rest : post () { h with locks := locks }) :
    wp (conduct cfg counting) (unlock (.file f)) post h := by
  apply wp_unlock
  · rw [last]
    exact List.mem_cons_self
  · rintro g ⟨⟩
    exact known
  · rw [last, List.erase_cons_head]
    exact rest

theorem wp_load {post : MemFile → Hand → Prop} (known : f ∈ h.refs) (rest : ∀ file, post file h) :
    wp (conduct cfg counting) (load f) post h := by
  unfold load
  rw [wp_call]
  refine ⟨⟨?_, trivial⟩, fun file _ => rest file⟩
  rintro g ⟨⟩
  exact known

theorem wp_store {field : FieldWrite} {post : Unit → Hand → Prop} (known : f ∈ h.refs)
    (other : ∀ n, field ≠ .pagesN n) (rest : post () h) :
    wp (conduct cfg counting) (store f field) post h := by
  have reads : ∀ g, Op.record (.store f field) = some g → g ∈ h.refs := by
    rintro g ⟨⟩
    exact known
  unfold store
  rw [wp_call]
  cases field with
  | pagesN n => exact (other n rfl).elim
  | _ => exact ⟨⟨reads, trivial⟩, fun _ _ => rest⟩

theorem wp_writeNB {fd : Nat} {msg : Msg} {post : Unit → Hand → Prop} (rest : post () h) :
    wp (conduct cfg counting) (writeNB fd msg) post h :=
  wp_silent rfl fun _ => rest

theorem wp_abort {e : Fault} {post : α → Hand → Prop} (other : ∀ f, e ≠ .deadFile f) :
    wp (conduct cfg counting) (abort e : Handler α) post h :=
  ⟨⟨nofun, other⟩, fun x => x.elim⟩

theorem wp_spin {post : α → Hand → Prop} :
    wp (conduct cfg counting) (spin : Handler α) post h :=
  ⟨⟨nofun, trivial⟩, fun x => x.elim⟩

theorem wp_deref {p : Option FileId} {post : FileId → Hand → Prop}
    (rest : ∀ f, p = some f → post f h) : wp (conduct cfg counting) (deref p) post h := by
  cases p with
  | none => exact wp_abort (by nofun)
  | some f => exact rest f rfl

/-! ## Pages and the table -/

theorem Mutex.rank_le (m : Mutex) : m.rank ≤ 4 := by
  cases m <;> simp [Mutex.rank]

theorem Hand.below_four (h : Hand) : h.Below 4 := fun m _ => m.rank_le

theorem wp_pageAdd {page : Nat} {post : Unit → Hand → Prop} (rest : post () h) :
    wp (conduct cfg counting) (pageAdd page) post h := by
  unfold pageAdd
  rw [wp_bind]
  apply wp_lock (by decide) h.below_four
  rw [wp_bind]
  apply wp_silent (by rfl)
  intro _
  exact wp_unlock_last (by decide) rfl rest

theorem wp_pageTake {post : Option Nat → Hand → Prop} (rest : ∀ page, post page h) :
    wp (conduct cfg counting) pageTake post h := by
  unfold pageTake
  rw [wp_bind]
  apply wp_lock (by decide) h.below_four
  rw [wp_bind]
  apply wp_silent (by rfl)
  intro page
  rw [wp_bind]
  exact wp_unlock_last (by decide) rfl (rest page)

theorem wp_pageAddAll {pages : List Nat} {post : Unit → Hand → Prop} (rest : post () h) :
    wp (conduct cfg counting) (pageAddAll pages) post h := by
  induction pages with
  | nil => exact rest
  | cons page pages ih =>
      unfold pageAddAll
      rw [wp_bind]
      exact wp_pageAdd ih

theorem wp_hashGetFile {str : CStr} {flag : Flag} {post : Option FileId → Hand → Prop}
    (below : h.Below 3) (reads : ∀ f, str.record = some f → f ∈ h.refs)
    (deletes : flag = .del → str.record.isSome)
    (rest : ∀ found, post found (h.after (.hashTbSearch str flag) found)) :
    wp (conduct cfg counting) (hashGetFile str flag) post h := by
  unfold hashGetFile
  rw [wp_bind]
  apply wp_lock (by decide) below
  rw [wp_bind, wp_call]
  cases flag with
  | src =>
      refine ⟨⟨reads, trivial⟩, fun found _ => ?_⟩
      rw [wp_bind]
      exact wp_unlock_last (by decide) rfl (rest found)
  | del =>
      refine ⟨⟨reads, deletes rfl⟩, fun found _ => ?_⟩
      rw [wp_bind]
      exact wp_unlock_last (by decide) rfl (rest found)

theorem wp_search {path : Path} {post : Option FileId → Hand → Prop} (below : h.Below 3)
    (rest : ∀ found, post found (h.see found)) :
    wp (conduct cfg counting) (hashGetFile (.buf path) .src) post h :=
  wp_hashGetFile below nofun nofun rest

theorem wp_fileSearchSilent {path : Path} {post : Int × Option FileId → Hand → Prop}
    (below : h.Below 3) (rest : ∀ found, post (if found.isSome then 0 else ENOENT, found) (h.see found)) :
    wp (conduct cfg counting) (fileSearchSilent path) post h := by
  unfold fileSearchSilent
  rw [wp_bind]
  exact wp_search below rest

theorem wp_fileFree {post : Unit → Hand → Prop} (known : f ∈ h.refs) (doomed : h.doomed = some f)
    (given : .file f ∈ h.locks → h.again)
    (rest : ∀ file : MemFile, (counting → h.locks ≠ [] → file.pagesN ≠ 0) →
      post () (h.after (.free f) file)) :
    wp (conduct cfg counting) (fileFree f) post h := by
  have reads : ∀ g, Op.record (.free f) = some g → g ∈ h.refs := by
    rintro g ⟨⟩
    exact known
  unfold fileFree
  rw [wp_bind, wp_call]
  refine ⟨⟨reads, doomed, given⟩, fun file expected => ?_⟩
  split
  · rw [wp_bind]
    exact wp_abort (by nofun)
  · exact wp_pageAddAll (rest file expected)

/-! ## The stack of file names -/

structure Hand.Grows (h h' : Hand) : Prop where
  locks : h'.locks = h.locks
  refs : h.refs ⊆ h'.refs

/-- One that leaves usable the pointers to the records whose mutexes are held. -/
structure Hand.Keeps (h h' : Hand) : Prop where
  locks : h'.locks = h.locks
  refs : ∀ f ∈ h.refs, .file f ∈ h.locks → f ∈ h'.refs

namespace Hand

theorem Grows.refl (h : Hand) : h.Grows h := ⟨rfl, subset_rfl⟩

theorem Grows.trans (first : h.Grows h₁) (second : h₁.Grows h₂) : h.Grows h₂ :=
  ⟨second.locks.trans first.locks, first.refs.trans second.refs⟩

theorem grows_see (h : Hand) (found : Option FileId) : h.Grows (h.see found) :=
  ⟨rfl, Set.subset_union_left⟩

theorem mem_see (h : Hand) {found : Option FileId} (same : found = some f) : f ∈ (h.see found).refs :=
  .inr same

theorem Below.mono {n n' : Nat} (below : h.Below n) (le : n ≤ n') : h.Below n' :=
  fun m mem => (below m mem).trans le

theorem Below.of_locks {n : Nat} (below : h.Below n) (same : h'.locks = h.locks) : h'.Below n := by
  unfold Below
  rw [same]
  exact below

theorem Below.cons {n : Nat} {m : Mutex} (below : h.Below n) (low : m.rank ≤ n)
    (same : h'.locks = m :: h.locks) : h'.Below n := by
  unfold Below
  rw [same]
  exact List.forall_mem_cons.mpr ⟨low, below⟩

end Hand

theorem wp_fileStackDefragLoop {n i last : Nat} (below : h.Below 3) :
    wp (conduct cfg counting) (fileStackDefragLoop n i last) (fun _ h' => h.Grows h') h := by
  induction n generalizing i last h with
  | zero => exact .refl h
  | succ n ih =>
      unfold fileStackDefragLoop
      rw [wp_bind]
      apply wp_silent (by rfl)
      intro cell
      cases cell with
      | none => exact ih below
      | some name =>
          rw [wp_bind]
          apply wp_search below
          intro found
          have seen := h.grows_see found
          have later (last' : Nat) : wp (conduct cfg counting)
              (fileStackDefragLoop n (i + 1) last') (fun _ h' => h.Grows h') (h.see found) :=
            wp_mono (ih (below.of_locks rfl)) fun _ _ grows => seen.trans grows
          cases found with
          | none =>
              rw [wp_bind]
              exact wp_silent rfl fun _ => later _
          | some f =>
              rw [wp_bind]
              exact wp_silent rfl fun _ => later _

theorem wp_fileStackDefrag (below : h.Below 2) :
    wp (conduct cfg counting) fileStackDefrag (fun _ h' => h.Grows h') h := by
  unfold fileStackDefrag
  rw [wp_bind]
  apply wp_lock (by decide) below
  rw [wp_bind]
  apply wp_silent (by rfl)
  intro max
  rw [wp_bind]
  have within : (h.after (.lock .filestack) ()).Below 3 :=
    (below.mono (by decide)).cons (by decide) rfl
  apply wp_mono (wp_fileStackDefragLoop within)
  intro last h' grows
  rw [wp_bind]
  apply wp_silent (by rfl)
  intro _
  apply wp_unlock_last (by decide) grows.locks
  exact ⟨rfl, grows.refs⟩

theorem wp_fileStackGetTop {str : CStr} {post : Option FileId → Hand → Prop} (below : h.Below 3)
    (reads : ∀ f, str.record = some f → f ∈ h.refs)
    (empty : (counting → .fileN ∉ h.locks) → post none h)
    (picked : ∀ f, post (some f) (h.after (.stackGetTop str) f)) :
    wp (conduct cfg counting) (fileStackGetTop str) post h := by
  unfold fileStackGetTop
  rw [wp_bind, wp_call]
  refine ⟨⟨nofun, trivial⟩, fun top expected => ?_⟩
  by_cases none : top = 0
  · rw [if_pos none]
    exact empty fun counting held => expected counting held none
  · rw [if_neg none]
    show wp _ (lock .hashTB >>= _) _ h
    rw [wp_bind]
    apply wp_lock (by decide) below
    rw [wp_bind, wp_call]
    refine ⟨⟨reads, trivial⟩, fun f _ => ?_⟩
    rw [wp_bind]
    exact wp_unlock_last (by decide) rfl (picked f)

theorem wp_fileDeleteFIFO {str : CStr} (below : h.Below 2)
    (reads : ∀ f, str.record = some f → f ∈ h.refs) :
    wp (conduct cfg counting) (fileDeleteFIFO str) (fun deleted h' => h.Keeps h' ∧
      (deleted = -1 ∧ (counting → .fileN ∉ h.locks) ∨
        (counting → h.locks ≠ [] → 0 < h'.credit))) h := by
  unfold fileDeleteFIFO
  rw [wp_bind]
  apply wp_lock (by decide) below
  rw [wp_bind]
  have within : (h.after (.lock .filestack) ()).Below 2 := below.cons (by decide) rfl
  apply wp_fileStackGetTop (within.mono (by decide)) reads
  · intro unheld
    rw [wp_bind]
    apply wp_unlock_last (by decide) rfl
    refine ⟨⟨rfl, fun f known _ => known⟩, .inl ⟨rfl, fun c held => ?_⟩⟩
    exact unheld c (List.mem_cons_of_mem _ held)
  · intro toDel
    rw [wp_bind]
    apply wp_lockFile
    · exact .inr (.inl ⟨List.mem_cons_self, within, rfl⟩)
    · exact Set.mem_insert ..
    rw [wp_bind]
    apply wp_hashGetFile
    · exact (within.mono (by decide)).cons (Nat.zero_le _) rfl
    · rintro f ⟨⟩
      exact Set.mem_insert ..
    · intro _
      rfl
    intro found
    rw [wp_bind]
    apply wp_unlockFile rfl (Or.inl (Set.mem_insert ..))
    rw [wp_bind]
    apply wp_unlock_last (by decide) rfl
    rw [wp_bind]
    apply wp_fileFree (Or.inl (Set.mem_insert ..)) rfl
    · intro held
      exact .inr (List.mem_cons_of_mem _ held)
    · intro file expected
      refine ⟨⟨rfl, fun f known held => ?_⟩, .inr fun c some => ?_⟩
      · refine ⟨.inl (.inr known), ?_⟩
        rintro rfl
        exact held
      · show 0 < if file.pagesN ≠ 0 then h.credit + 1 else h.credit
        rw [if_pos (expected c some)]
        exact Nat.succ_pos _

end

end FileServer
