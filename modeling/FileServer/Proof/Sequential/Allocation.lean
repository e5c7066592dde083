import FileServer.Program.Along
import Mathlib.Logic.Relation
import FileServer.Proof.Sequential.Requests

/-!
# Along a request

The states in which a request served alone takes pages and picks files to evict, and what each
allocation does to the store, step by step.
-/

namespace FileServer
open Program

def Op.calm : Op → Bool
  | .pageTake | .stackGetTop _ => false
  | _ => true

def Server.picking {W : Type} (t : Server W) (w : W) : Server W :=
  (t.setOwner .filestack (some w)).setOwner .hashTB (some w)

structure Evicts {W : Type} (cfg : Config) (path : Option Path) (s s' : Server W) (v : FileId)
    (file : MemFile) : Prop extends Removes cfg s s' v file where
  nonempty : s.store.fstack.top ≠ 0
  chosen : s.store.fstack.getTop (s.store.lookup cfg) path = .ok (v, s'.store.fstack)

/-- `v`, and no other record, has left the table; it was not `f`. -/
structure Leaves (f v : FileId) (σ σ' : Store) : Prop where
  other : v ≠ f
  perm : σ.recorded.Perm (v :: σ'.recorded)
  gone : v ∉ σ'.recorded

def Freed {W : Type} (admits : Server W → Op → Prop) (s : Server W) (v : FileId) : Prop :=
  ∃ u, u.store.files = s.store.files ∧ admits u (.free v)

inductive PageStep {W : Type} (cfg : Config) (admits : Server W → Op → Prop) (f : FileId) :
    Server W → Server W → Prop where
  | evict {s s' v self file} (exhausted : s.store.pages = []) (found : s.store.files f = some self)
      (evicts : Evicts cfg (some self.abspath) s s' v file) (leaves : Leaves f v s.store s'.store)
      (freed : Freed admits s v) :
      PageStep cfg admits f s (s'.setStore { s'.store with fileN := s'.store.fileN - 1 })
  | take {s page rest} (list : s.store.pages = page :: rest) :
      PageStep cfg admits f s (s.setStore { s.store with pages := rest })
  | give {s file} (field : FieldWrite) (found : s.store.files f = some file) :
      PageStep cfg admits f s (s.setFile f (some (file.write field)))

inductive CountStep {W : Type} (cfg : Config) (admits : Server W → Op → Prop) (f : FileId)
    (s : Server W) : Server W → Prop where
  | increased (room : s.store.fileN < cfg.fileMax) :
      CountStep cfg admits f s (s.setStore { s.store with fileN := s.store.fileN + 1 })
  | evicted {s' v file} (full : cfg.fileMax ≤ s.store.fileN) (evicts : Evicts cfg none s s' v file)
      (leaves : Leaves f v s.store s'.store) (freed : Freed admits s v) : CountStep cfg admits f s s'
  | uncounted (full : cfg.fileMax ≤ s.store.fileN) (empty : s.store.fstack.top = 0)
      (admitted : ∃ u, u.store = s.store ∧ u.owner .fileN ≠ none ∧ admits u (.stackTop .null)) :
      CountStep cfg admits f s s

/-- The table, the counter of files and the numbers of pages are as before. -/
structure Settles (σ σ' : Store) : Prop where
  table : σ'.table = σ.table
  fileN : σ'.fileN = σ.fileN
  pagesN : ∀ g, (σ'.files g).map MemFile.pagesN = (σ.files g).map MemFile.pagesN

structure Midway {W : Type} (cfg : Config) (w : W) (s : Server W) (f : FileId) (t : Server W) :
    Prop where
  target : f ∈ s.store.recorded
  shrinks : ∃ fd msg, Shrinks (some f) ((s.setOwner (.file f) (some w)).send fd msg) t
  consistent : ∃ busy extra, (∀ g, busy = some g → g = f) ∧ Consistent cfg busy extra t.store

/-- The operations along a request, with the states they are performed in. -/
inductive Event {W : Type} (cfg : Config) (w : W) (s : Server W) : Server W → Op → Prop where
  | take {f t} (midway : Midway cfg w s f t) : Event cfg w s (t.setOwner .pages (some w)) .pageTake
  | pick {f t} (midway : Midway cfg w s f t) (exhausted : t.store.pages = []) :
      Event cfg w s (t.picking w) (.stackGetTop (.abspath f))
  | count {f t} (midway : Midway cfg w s f t) (settles : Settles s.store t.store)
      (full : cfg.fileMax ≤ t.store.fileN) :
      Event cfg w s ((t.setOwner .fileN (some w)).picking w) (.stackGetTop .null)
  | calm {t o} (calm : o.calm = true) : Event cfg w s t o

section
variable {W α : Type} {admits : Server W → Op → Prop} {cfg : Config} {w : W} {s t t' : Server W}
  {f v : FileId} {file : MemFile} {path : Path} {busy : Option FileId} {extra : List Nat}

/-- `p`, run alone from `t` while the request served from `s` goes on, can only come to the operations
of `Event` and end in `post`, as long as each operation is admitted. -/
abbrev Passes (admits : Server W → Op → Prop) (cfg : Config) (w : W) (s : Server W) (p : Handler α)
    (post : α → Server W → Prop) (t : Server W) : Prop :=
  wp ((server W cfg).along w admits (Event cfg w s)) p post t

theorem passes_bind {β : Type} {p : Handler α} {k : α → Handler β} {post : β → Server W → Prop} :
    Passes admits cfg w s (p >>= k) post t ↔
      Passes admits cfg w s p (fun a => Passes admits cfg w s (k a) post) t :=
  wp_bind p k post t

theorem passes_call {o : Op} {post : o.Resp → Server W → Prop} (event : Event cfg w s t o)
    (h : admits t o → ∀ x t', Server.exec cfg w o t = .ok (x, t') → post x t') :
    Passes admits cfg w s (call o) post t :=
  ⟨event, fun x t' step => h step.1 x t' step.2⟩

theorem Ends.passes {p : Handler α} {post : α → Server W → Prop} (ends : Ends False cfg w p post t)
    (calm : p.All (·.calm = true)) : Passes admits cfg w s p post t :=
  calm.wp (fun _ _ => .calm) (fun _ _ _ _ step => step.2) ends

theorem Passes.ends {p : Handler α} {post post' : α → Server W → Prop}
    (passes : Passes admits cfg w s p post t) (ends : Ends False cfg w p post' t) :
    Passes admits cfg w s p (fun a t' => post a t' ∧ post' a t') t :=
  wp_both (fun _ _ event _ => event) (fun _ _ _ _ step => ⟨step, step.2⟩) passes ends

/-! ## Calm functions -/

theorem calm_call {o : Op} (calm : o.calm = true) : (call o).All (·.calm = true) :=
  (all_perform o).mpr calm

theorem calm_lock (m : Mutex) : (lock m).All (·.calm = true) := calm_call rfl
theorem calm_unlock (m : Mutex) : (unlock m).All (·.calm = true) := calm_call rfl
theorem calm_load (f : FileId) : (load f).All (·.calm = true) := calm_call rfl
theorem calm_store (f : FileId) (field : FieldWrite) : (store f field).All (·.calm = true) :=
  calm_call rfl
theorem calm_writeNB (fd : Nat) (msg : Msg) : (writeNB fd msg).All (·.calm = true) := calm_call rfl
theorem calm_abort (e : Fault) : (abort e : Handler α).All (·.calm = true) := ⟨rfl, fun x => x.elim⟩

theorem calm_deref (ptr : Option FileId) : (deref ptr).All (·.calm = true) := by
  cases ptr with
  | none => exact calm_abort _
  | some f => trivial

theorem calm_hashGetFile (str : CStr) (flag : Flag) : (hashGetFile str flag).All (·.calm = true) :=
  (calm_lock _).bind fun _ => (calm_call rfl).bind fun _ => (calm_unlock _).bind fun _ => all_pure _

theorem calm_pageAdd (page : Nat) : (pageAdd page).All (·.calm = true) :=
  (calm_lock _).bind fun _ => (calm_call rfl).bind fun _ => calm_unlock _

theorem calm_pageAddAll (pages : List Nat) : (pageAddAll pages).All (·.calm = true) := by
  induction pages with
  | nil => trivial
  | cons page pages ih => exact (calm_pageAdd page).bind fun _ => ih

theorem calm_fileNDecrease : fileNDecrease.All (·.calm = true) :=
  (calm_lock _).bind fun _ => (calm_call rfl).bind fun _ => calm_unlock _

/-! ## Evictions -/

theorem passes_pageTake (midway : Midway cfg w s f t) {post : Option Nat → Server W → Prop}
    (empty : t.store.pages = [] → post none t)
    (taken : ∀ page rest, t.store.pages = page :: rest →
      post (some page) (t.setStore { t.store with pages := rest })) :
    Passes admits cfg w s pageTake post t := by
  unfold pageTake
  rw [passes_bind]
  refine (ends_lock.mpr fun _ free => ?_).passes (calm_lock _)
  rw [passes_bind]
  refine passes_call (.take midway) fun _ page t' step => ?_
  refine (ends_bind.mpr (ends_unlock.mpr fun _ => ?_)).passes
    ((calm_unlock _).bind fun _ => all_pure _)
  simp only [Server.exec, Server.setOwner_store] at step
  cases list : t.store.pages with
  | nil =>
      simp only [list, Outcome.ok.injEq, Prod.mk.injEq] at step
      obtain ⟨rfl, rfl⟩ := step
      rw [Server.setOwner_release t w free]
      exact empty list
  | cons page rest =>
      simp only [list, Outcome.ok.injEq, Prod.mk.injEq] at step
      obtain ⟨rfl, rfl⟩ := step
      rw [setStore_release _ free]
      exact taken page rest list

theorem passes_fileFree {post : Unit → Server W → Prop}
    (whole : ∀ file, t.store.files v = some file → file.pagesN ≤ file.pages.length)
    (h : ∀ file, t.store.files v = some file → admits t (.free v) →
      post () ((t.setFile v none).setStore { (t.setFile v none).store with
        pages := (file.pages.take file.pagesN).reverse ++ t.store.pages })) :
    Passes admits cfg w s (fileFree v) post t := by
  unfold fileFree
  rw [passes_bind]
  refine passes_call (.calm rfl) fun admitted file t' step => ?_
  obtain ⟨file', found, step⟩ := Server.onFile_eq_ok.mp step
  cases step
  simp only [if_neg (Nat.not_lt.mpr (whole file found))]
  exact (ends_pageAddAll (h file found admitted)).passes (calm_pageAddAll _)

theorem passes_fileStackGetTop {str : CStr} (event : Event cfg w s (t.setOwner .hashTB (some w))
      (.stackGetTop str)) {post : Option FileId → Server W → Prop}
    (empty : t.store.fstack.top = 0 → admits t (.stackTop str) → post none t)
    (found : ∀ path v stack, t.store.fstack.top ≠ 0 → t.readStr str = .ok path →
      t.store.fstack.getTop (t.store.lookup cfg) path = .ok (v, stack) →
      post (some v) (t.setStack stack)) :
    Passes admits cfg w s (fileStackGetTop str) post t := by
  unfold fileStackGetTop
  rw [passes_bind]
  refine passes_call (.calm rfl) fun admitted top t' step => ?_
  cases step
  by_cases zero : t.store.fstack.top = 0
  · rw [if_pos zero]
    exact empty zero admitted
  · rw [if_neg zero, passes_bind]
    refine (ends_lock.mpr fun _ free => ?_).passes (calm_lock _)
    rw [passes_bind]
    refine passes_call event fun _ v t' step => ?_
    refine (ends_bind.mpr (ends_unlock.mpr fun _ => ?_)).passes
      ((calm_unlock _).bind fun _ => all_pure _)
    simp only [Server.exec, readStr_setOwner, Server.setOwner_store] at step
    obtain ⟨path, read, step⟩ := Outcome.andThen_eq_ok.mp step
    obtain ⟨⟨v', stack⟩, scanned, step⟩ := Outcome.andThen_eq_ok.mp step
    cases step
    have release : ((t.setOwner .hashTB (some w)).setStack stack).setOwner .hashTB none =
        t.setStack stack := Server.setOwner_release (t.setStack stack) w free
    rw [release]
    exact found path v' stack zero read scanned

theorem passes_fileDeleteFIFO {str : CStr} (event : Event cfg w s (t.picking w) (.stackGetTop str))
    {post : Int → Server W → Prop}
    (whole : ∀ name v file, t.store.lookup cfg name = .ok (some v) → t.owner (.file v) = none →
      t.store.files v = some file → file.pagesN ≤ file.pages.length)
    (empty : t.store.fstack.top = 0 →
      admits (t.setOwner .filestack (some w)) (.stackTop str) → post (-1) t)
    (evicted : ∀ path v file t', t.readStr str = .ok path → Evicts cfg path t t' v file →
      Freed admits t v → post 0 t') :
    Passes admits cfg w s (fileDeleteFIFO str) post t := by
  unfold fileDeleteFIFO
  rw [passes_bind]
  refine (ends_lock.mpr fun _ free => ?_).passes (calm_lock _)
  rw [passes_bind]
  refine passes_fileStackGetTop event (fun zero admitted => ?_)
    fun path v stack nonempty read chosen => ?_
  · refine (ends_bind.mpr (ends_unlock.mpr fun _ => ?_)).passes
      ((calm_unlock _).bind fun _ => all_pure _)
    rw [Server.setOwner_release t w free]
    exact empty zero admitted
  · rw [readStr_setOwner] at read
    rw [passes_bind]
    refine (ends_lock.mpr fun live vfree => ?_).passes (calm_lock _)
    have vfree' : t.owner (.file v) = none := by
      simpa [Server.setStack] using vfree
    obtain ⟨name, named⟩ := FileStack.getTop_found chosen
    rw [passes_bind]
    refine (ends_hashGetFile (fun null => ?_) fun abspath found σ read' searched => ?_).passes
      (calm_hashGetFile _ _)
    · obtain ⟨file, -, wrong⟩ := Server.onFile_eq_ok.mp null
      cases wrong
    obtain ⟨file, alive, same⟩ := Server.onFile_eq_ok.mp read'
    cases same
    change t.store.files v = some file at alive
    have searched' : t.store.hashTbSearch cfg file.abspath .del =
        .ok (found, { t.store with table := σ.table }) := by
      change ({ t.store with fstack := stack } : Store).hashTbSearch cfg file.abspath .del = _
        at searched
      rw [hashTbSearch_setStack, Outcome.andThen_eq_ok] at searched
      obtain ⟨⟨f, σ'⟩, before, after⟩ := searched
      cases after
      rw [before, ← hashTbSearch_table before]
    have fields : σ = { t.store with table := σ.table, fstack := stack } := hashTbSearch_table searched
    rw [passes_bind]
    refine (ends_unlock.mpr fun _ => ?_).passes (calm_unlock _)
    rw [passes_bind]
    refine (ends_unlock.mpr fun _ => ?_).passes (calm_unlock _)
    -- every mutex taken on the way is free again
    have released : ((((((t.setOwner .filestack (some w)).setStack stack).setOwner (.file v)
        (some w)).setStore σ).setOwner (.file v) none).setOwner .filestack none) = t.setStore σ := by
      cases t with
      | mk store owner sent =>
          simp only [Server.setOwner, Server.setStack, Server.setStore, Server.mk.injEq, and_true,
            true_and]
          funext m
          by_cases stackMutex : m = .filestack
          · subst stackMutex
            simpa using free.symm
          · by_cases victim : m = .file v
            · subst victim
              simpa using vfree'.symm
            · simp [stackMutex, victim]
    rw [released]
    have files : σ.files = t.store.files := by rw [fields]
    rw [passes_bind]
    refine passes_fileFree (fun file' alive' => ?_) fun file' alive' admitted => ?_
    · change σ.files v = some file' at alive'
      rw [files] at alive'
      exact whole name v file' named vfree' alive'
    · change σ.files v = some file' at alive'
      rw [files] at alive'
      cases Option.some.inj (alive'.symm.trans alive)
      refine evicted path v file _ read ⟨⟨alive, vfree', ⟨name, named⟩, ⟨found, searched'⟩, ?_⟩,
        nonempty, ?_⟩ ⟨t.setStore σ, files, admitted⟩
      · rw [fields]
        rfl
      · rw [fields]
        exact chosen

/-! ## Allocations -/

theorem Midway.moves (midway : Midway cfg w s f t) (shrinks : Shrinks (some f) t t')
    (consistent : Consistent cfg busy extra t'.store) (only : ∀ g, busy = some g → g = f) :
    Midway cfg w s f t' := by
  obtain ⟨fd, msg, before⟩ := midway.shrinks
  exact ⟨midway.target, ⟨fd, msg, before.trans shrinks⟩, busy, extra, only, consistent⟩

theorem Midway.held (midway : Midway cfg w s f t) : t.owner (.file f) = some w := by
  obtain ⟨fd, msg, shrinks⟩ := midway.shrinks
  rw [shrinks.owner]
  exact Server.setOwner_owner_self ..

theorem Midway.recorded (midway : Midway cfg w s f t) : f ∈ t.store.recorded := by
  obtain ⟨fd, msg, shrinks⟩ := midway.shrinks
  exact shrinks.held f midway.target (by simp)

theorem Midway.alive (midway : Midway cfg w s f t) : ∃ file, t.store.files f = some file := by
  obtain ⟨busy, extra, -, consistent⟩ := midway.consistent
  exact consistent.alive midway.recorded

structure Stretch (cfg : Config) (admits : Server W → Op → Prop) (f : FileId) (busy : Option FileId)
    (extra : List Nat) (target : Option FileId) (t t' : Server W) : Prop where
  consistent : Consistent cfg busy extra t'.store
  shrinks : Shrinks target t t'
  steps : Relation.ReflTransGen (PageStep cfg admits f) t t'

theorem Stretch.refl (consistent : Consistent cfg busy extra t.store) (target : Option FileId) :
    Stretch cfg admits f busy extra target t t :=
  ⟨consistent, .refl target t, .refl⟩

theorem Stretch.trans {u : Server W} {busy' : Option FileId} {extra' : List Nat}
    {target : Option FileId} (first : Stretch cfg admits f busy extra target t t')
    (second : Stretch cfg admits f busy' extra' target t' u) :
    Stretch cfg admits f busy' extra' target t u :=
  ⟨second.consistent, first.shrinks.trans second.shrinks, first.steps.trans second.steps⟩

theorem Evicts.leaves {path : Option Path} (evicts : Evicts cfg path t t' v file)
    (midway : Midway cfg w s f t) (consistent : Consistent cfg busy extra t.store) :
    Leaves f v t.store t'.store := by
  refine ⟨?_, evicts.recorded consistent, evicts.victim_nmem consistent⟩
  rintro rfl
  cases midway.held.symm.trans evicts.free

theorem passes_pageGetLoop (fuel : Nat) (midway : Midway cfg w s f t)
    (consistent : Consistent cfg busy extra t.store) (only : ∀ g, busy = some g → g = f)
    (exhausted : t.store.pages = []) :
    Passes admits cfg w s (pageGetLoop (.abspath f) fuel)
      (fun page t' => Stretch cfg admits f busy (page :: extra) none t t') t := by
  induction fuel generalizing t with
  | zero => exact ⟨.calm rfl, fun x => x.elim⟩
  | succ fuel ih =>
      -- after an attempt to evict, one more look at the page list
      have retry {t₁ : Server W} (stretch : Stretch cfg admits f busy extra none t t₁) :
          Passes admits cfg w s (pageRetry (.abspath f) fuel)
            (fun page t' => Stretch cfg admits f busy (page :: extra) none t t') t₁ := by
        have midway₁ := midway.moves (stretch.shrinks.weaken _) stretch.consistent only
        unfold pageRetry
        rw [passes_bind]
        refine passes_pageTake midway₁ (fun empty => ?_) fun page rest list => ?_
        · exact wp_mono (ih midway₁ stretch.consistent empty) fun page t' rest => stretch.trans rest
        · refine stretch.trans ⟨stretch.consistent.exchange ?_, Shrinks.bookkeeping t₁ rest _ _,
            .single (.take list)⟩
          rw [list, List.cons_append]
          exact List.perm_middle
      have held : ∀ g, busy = some g → t.owner (.file g) ≠ none := by
        intro g same
        rw [only g same, midway.held]
        exact Option.some_ne_none w
      have other {v : FileId} (free : t.owner (.file v) = none) : some v ≠ busy :=
        fun same => held v same.symm free
      obtain ⟨self, found⟩ := midway.alive
      have read : t.readStr (.abspath f) = .ok (some self.abspath) := by
        simp [Server.readStr, Server.onFile, found]
      rw [pageGetLoop_succ]
      rw [passes_bind]
      refine passes_fileDeleteFIFO (.pick midway exhausted) (fun name v file named free alive => ?_)
        (fun _ _ => ?_) fun path v file t₁ read' evicts freed => ?_
      · have mem := Store.hashTbSearch_mem (Store.lookup_eq_ok.mp named)
        exact Nat.le_of_eq (consistent.shaped v file mem alive (other free)).filled.symm
      · rw [if_neg (not_not.mpr rfl)]
        exact retry (.refl consistent none)
      · cases read.symm.trans read'
        rw [if_pos (by decide), passes_bind]
        refine (ends_fileNDecrease ?_).passes calm_fileNDecrease
        refine retry ⟨(evicts.consistent consistent (other evicts.free)).reframe _ _,
          (evicts.shrinks consistent).trans (Shrinks.bookkeeping t₁ _ _ _), .single ?_⟩
        exact .evict exhausted found evicts (evicts.leaves midway consistent) freed

theorem passes_pageGet (fuel : Nat) (midway : Midway cfg w s f t)
    (consistent : Consistent cfg busy extra t.store) (only : ∀ g, busy = some g → g = f) :
    Passes admits cfg w s (pageGet fuel (.abspath f))
      (fun page t' => Stretch cfg admits f busy (page :: extra) none t t') t := by
  unfold pageGet
  rw [passes_bind]
  refine passes_pageTake midway
    (fun empty => passes_pageGetLoop fuel midway consistent only empty) fun page rest list => ?_
  refine ⟨consistent.exchange ?_, Shrinks.bookkeeping t rest _ _, .single (.take list)⟩
  rw [list, List.cons_append]
  exact List.perm_middle

theorem Evicts.unlock {m : Mutex} {path : Option Path} (free : t.owner m = none) (other : m ≠ .file v)
    (evicts : Evicts cfg path (t.setOwner m (some w)) t' v file) :
    Evicts cfg path t (t'.setOwner m none) v file where
  alive := evicts.alive
  free := by rw [← evicts.free, Server.setOwner_owner_of_ne _ _ (Ne.symm other)]
  named := evicts.named
  removed := evicts.removed
  result := by
    rw [evicts.result]
    exact setStore_release _ free
  nonempty := evicts.nonempty
  chosen := evicts.chosen

theorem passes_fileNUpdate (midway : Midway cfg w s f t) (settles : Settles s.store t.store)
    (consistent : Consistent cfg busy extra t.store) (only : ∀ g, busy = some g → g = f) :
    Passes admits cfg w s (fileNUpdate cfg.fileMax) (fun _ t' => CountStep cfg admits f t t') t := by
  have held : ∀ g, busy = some g → t.owner (.file g) ≠ none := by
    intro g same
    rw [only g same, midway.held]
    exact Option.some_ne_none w
  unfold fileNUpdate
  rw [passes_bind]
  refine (ends_lock.mpr fun _ free => ?_).passes (calm_lock _)
  have release (ret : Int) {t₁ : Server W} (counted : CountStep cfg admits f t (t₁.setOwner .fileN none)) :
      Passes admits cfg w s (do unlock .fileN; return ret) (fun _ t' => CountStep cfg admits f t t')
        t₁ := by
    have ends : Ends False cfg w (do unlock .fileN; return ret)
        (fun _ t' => CountStep cfg admits f t t') t₁ := by
      rw [ends_bind, ends_unlock]
      intro _
      exact counted
    exact ends.passes ((calm_unlock _).bind fun _ => all_pure _)
  rw [passes_bind]
  refine passes_call (.calm rfl) fun _ increased t₁ step => ?_
  simp only [Server.exec] at step
  split at step
  · rename_i full
    cases step
    dsimp only
    rw [if_neg (by decide), passes_bind]
    refine passes_fileDeleteFIFO (.count midway settles full) (fun name v file named vfree alive => ?_)
      (fun empty admitted => ?_) fun path v file t₁ read evicts freed => ?_
    · have mem := Store.hashTbSearch_mem (Store.lookup_eq_ok.mp named)
      refine Nat.le_of_eq (consistent.shaped v file mem alive fun same => ?_).filled.symm
      exact held v same.symm (by simpa using vfree)
    · refine release (-1) ?_
      rw [Server.setOwner_release t w free]
      refine .uncounted full empty
        ⟨(t.setOwner .fileN (some w)).setOwner .filestack (some w), rfl, ?_, admitted⟩
      simp [Server.setOwner]
    · cases read
      have evicts := evicts.unlock free (by simp)
      exact release 0 (.evicted full evicts (evicts.leaves midway consistent) freed)
  · rename_i room
    cases step
    dsimp only
    rw [if_pos rfl]
    refine release 1 ?_
    rw [setStore_release _ free]
    exact .increased (Int.not_le.mp room)

/-! ## Growing -/

theorem Stretch.give (admits : Server W → Op → Prop) {field : FieldWrite}
    (midway : Midway cfg w s f t)
    (consistent : Consistent cfg (some f) extra (t.setFile f (some (file.write field))).store)
    (found : t.store.files f = some file) :
    Midway cfg w s f (t.setFile f (some (file.write field))) ∧
      Stretch cfg admits f (some f) extra (some f) t (t.setFile f (some (file.write field))) := by
  have shrinks := Shrinks.setFile t f (some (file.write field))
  refine ⟨midway.moves shrinks consistent ?_, consistent, shrinks, .single (.give field found)⟩
  rintro g same
  exact (Option.some.inj same).symm

theorem passes_filePagesFill (fuel n : Nat) (midway : Midway cfg w s f t)
    (consistent : Consistent cfg (some f) [] t.store) :
    Passes admits cfg w s (filePagesFill fuel f n)
      (fun _ t' => Stretch cfg admits f (some f) [] (some f) t t') t := by
  have only : ∀ g, some f = some g → g = f := fun g same => (Option.some.inj same).symm
  induction n generalizing t with
  | zero => exact .refl consistent _
  | succ n ih =>
      unfold filePagesFill
      rw [passes_bind]
      refine wp_mono (passes_pageGet fuel midway consistent only) fun page t₁ stretch₁ => ?_
      have midway₁ := midway.moves (stretch₁.shrinks.weaken _) stretch₁.consistent only
      rw [passes_bind]
      refine (ends_store.mpr fun file found => ?_).passes (calm_store ..)
      have consistent₂ : Consistent cfg (some f) []
          (t₁.setFile f (some (file.write (.pagesFill page)))).store := by
        refine stretch₁.consistent.setFile midway₁.recorded found rfl ?_ only
        show (file.pages ++ [page]).Perm ([page] ++ file.pages)
        exact List.perm_append_comm
      obtain ⟨midway₂, stretch₂⟩ := Stretch.give admits midway₁ consistent₂ found
      refine wp_mono (ih midway₂ consistent₂) fun _ t₃ stretch₃ => ?_
      have whole := stretch₂.trans stretch₃
      exact ⟨whole.consistent, (stretch₁.shrinks.weaken _).trans whole.shrinks,
        stretch₁.steps.trans whole.steps⟩

theorem passes_filePagesInitialize (fuel : Nat) (midway : Midway cfg w s f t)
    (consistent : Consistent cfg (some f) [] t.store) (found : t.store.files f = some file)
    (empty : file.pages = []) :
    Passes admits cfg w s (filePagesInitialize cfg fuel f)
      (fun _ t' => Stretch cfg admits f (some f) [] (some f) t t') t := by
  have only : ∀ g, some f = some g → g = f := fun g same => (Option.some.inj same).symm
  unfold filePagesInitialize
  rw [passes_bind]
  refine (ends_load.mpr fun file₀ same => ?_).passes (calm_load f)
  cases Option.some.inj (same.symm.trans found)
  rw [passes_bind]
  refine (ends_store.mpr fun file₀ same => ?_).passes (calm_store ..)
  cases Option.some.inj (same.symm.trans found)
  have consistent₁ : Consistent cfg (some f) []
      (t.setFile f (some (file.write (.pagesN (pagesFor cfg file.size))))).store := by
    refine consistent.setFile midway.recorded found rfl ?_ only
    exact .refl _
  obtain ⟨midway₁, stretch₁⟩ := Stretch.give admits midway consistent₁ found
  rw [passes_bind]
  refine (ends_store.mpr fun file₁ found₁ => ?_).passes (calm_store ..)
  have noPages : file₁.pages = [] := by
    cases Option.some.inj (found₁.symm.trans (Function.update_self ..))
    exact empty
  have consistent₂ : Consistent cfg (some f) [] ((t.setFile f
      (some (file.write (.pagesN (pagesFor cfg file.size))))).setFile f
        (some (file₁.write .pagesAlloc))).store := by
    refine consistent₁.setFile midway₁.recorded found₁ rfl ?_ only
    rw [noPages]
    exact .refl _
  obtain ⟨midway₂, stretch₂⟩ := Stretch.give admits midway₁ consistent₂ found₁
  refine wp_mono (passes_filePagesFill fuel _ midway₂ consistent₂) fun _ t' stretch₃ => ?_
  exact (stretch₁.trans stretch₂).trans stretch₃

theorem passes_filePagesExtra (fuel n : Nat) (midway : Midway cfg w s f t)
    (consistent : Consistent cfg none extra t.store) :
    Passes admits cfg w s (filePagesExtra fuel f n)
      (fun pages t' => Stretch cfg admits f none (pages ++ extra) none t t') t := by
  induction n generalizing t extra with
  | zero => exact .refl consistent _
  | succ n ih =>
      unfold filePagesExtra
      rw [passes_bind]
      refine wp_mono (passes_pageGet fuel midway consistent (by simp)) fun page t₁ stretch₁ => ?_
      have midway₁ := midway.moves (stretch₁.shrinks.weaken _) stretch₁.consistent (by simp)
      rw [passes_bind]
      refine wp_mono (ih midway₁ stretch₁.consistent) fun pages t₂ stretch₂ => ?_
      refine ⟨?_, stretch₁.shrinks.trans stretch₂.shrinks, stretch₁.steps.trans stretch₂.steps⟩
      exact stretch₂.consistent.exchange (List.perm_middle.symm.append_left _)

theorem passes_filePagesRenew (fuel : Nat) (dim : Int) (midway : Midway cfg w s f t)
    (consistent : Consistent cfg none [] t.store) :
    Passes admits cfg w s (filePagesRenew fuel f dim)
      (fun _ t' => Relation.ReflTransGen (PageStep cfg admits f) t t') t := by
  unfold filePagesRenew
  rw [passes_bind]
  refine (ends_load.mpr fun file found => ?_).passes (calm_load f)
  have filled := (consistent.shaped f file midway.recorded found nofun).filled
  by_cases enough : dim ≤ file.pagesN
  · rw [if_pos enough]
    exact .refl
  · rw [if_neg enough, if_neg (by omega), passes_bind]
    refine wp_mono (passes_filePagesExtra fuel _ midway consistent) fun pages t₁ stretch => ?_
    refine (ends_store.mpr fun file₁ found₁ => ?_).passes (calm_store ..)
    exact stretch.steps.tail (.give _ found₁)

end

end FileServer
