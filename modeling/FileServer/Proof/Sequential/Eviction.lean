import FileServer.Proof.Sequential.Rules
import FileServer.Proof.HashTable

/-!
# Evictions and page requests of one worker

What each function of `FileMemory.c` can do when it returns.
-/

namespace FileServer
open Program

section
variable {W : Type} {strict : Prop} {cfg : Config} {w : W} {s : Server W}

theorem setStore_release {m : Mutex} (σ : Store) (free : s.owner m = none) :
    ((s.setOwner m (some w)).setStore σ).setOwner m none = s.setStore σ :=
  Server.setOwner_release (s.setStore σ) w free

theorem readStr_setOwner (str : CStr) (m : Mutex) (v : Option W) :
    (s.setOwner m v).readStr str = s.readStr str := by
  cases str <;> rfl

/-! ## Pages -/

theorem ends_pageAdd {page : Nat} {post : Unit → Server W → Prop}
    (h : post () (s.setStore { s.store with pages := page :: s.store.pages })) :
    Ends strict cfg w (pageAdd page) post s := by
  unfold pageAdd
  rw [ends_bind, ends_lock]
  intro _ free
  rw [ends_bind]
  refine ends_call (by simp) fun x s' step => ?_
  cases step
  rw [ends_unlock]
  intro _
  rw [setStore_release _ free]
  exact h

theorem ends_pageTake {post : Option Nat → Server W → Prop}
    (empty : s.store.pages = [] → post none s)
    (taken : ∀ page rest, s.store.pages = page :: rest →
      post (some page) (s.setStore { s.store with pages := rest })) :
    Ends strict cfg w pageTake post s := by
  unfold pageTake
  rw [ends_bind, ends_lock]
  intro _ free
  rw [ends_bind]
  refine ends_call (by simp) fun x s' step => ?_
  rw [ends_bind, ends_unlock]
  intro _
  simp only [Server.exec, Server.setOwner_store] at step
  cases list : s.store.pages with
  | nil =>
      simp only [list, Outcome.ok.injEq, Prod.mk.injEq] at step
      obtain ⟨rfl, rfl⟩ := step
      rw [Server.setOwner_release s w free]
      exact empty list
  | cons page rest =>
      simp only [list, Outcome.ok.injEq, Prod.mk.injEq] at step
      obtain ⟨rfl, rfl⟩ := step
      rw [setStore_release _ free]
      exact taken page rest list

theorem ends_pageAddAll {pages : List Nat} {post : Unit → Server W → Prop}
    (h : post () (s.setStore { s.store with pages := pages.reverse ++ s.store.pages })) :
    Ends strict cfg w (pageAddAll pages) post s := by
  induction pages generalizing s with
  | nil => exact h
  | cons page pages ih =>
      unfold pageAddAll
      rw [ends_bind]
      refine ends_pageAdd (ih ?_)
      rw [List.reverse_cons, List.append_assoc] at h
      exact h

/-! ## Records -/

theorem ends_hashGetFile {str : CStr} {flag : Flag} {post : Option FileId → Server W → Prop}
    (null : s.readStr str = .ok none → post none s)
    (searched : ∀ path f σ, s.readStr str = .ok (some path) →
      s.store.hashTbSearch cfg path flag = .ok (f, σ) → post f (s.setStore σ)) :
    Ends strict cfg w (hashGetFile str flag) post s := by
  unfold hashGetFile
  rw [ends_bind, ends_lock]
  intro _ free
  rw [ends_bind]
  refine ends_call (by simp) fun x s' step => ?_
  rw [ends_bind, ends_unlock]
  intro _
  simp only [Server.exec, readStr_setOwner, Server.setOwner_store] at step
  obtain ⟨path, read, step⟩ := Outcome.andThen_eq_ok.mp step
  cases path with
  | none =>
      cases step
      rw [Server.setOwner_release s w free]
      exact null read
  | some path =>
      obtain ⟨⟨f, σ⟩, found, step⟩ := Outcome.andThen_eq_ok.mp step
      cases step
      rw [setStore_release _ free]
      exact searched path f σ read found

theorem run_hashGetFile {str : CStr} {flag : Flag} {path : Path} {f : Option FileId} {σ : Store}
    (free : s.owner .hashTB = none) (read : s.readStr str = .ok (some path))
    (searched : s.store.hashTbSearch cfg path flag = .ok (f, σ)) :
    (server W cfg).run w (hashGetFile str flag) s = .ok (f, s.setStore σ) := by
  have step : Server.exec cfg w (.hashTbSearch str flag) (s.setOwner .hashTB (some w)) =
      .ok (f, (s.setOwner .hashTB (some w)).setStore σ) := by
    simp [Server.exec, readStr_setOwner, read, searched]
  unfold hashGetFile
  rw [Machine.run_bind_of (run_lock (m := .hashTB) trivial free),
    Machine.run_bind_of ((run_call _).trans step),
    Machine.run_bind_of (run_unlock (m := .hashTB) trivial), Machine.run_pure,
    setStore_release _ free]

theorem ends_fileFree {f : FileId} {post : Unit → Server W → Prop}
    (whole : ∀ file, s.store.files f = some file → file.pagesN ≤ file.pages.length)
    (h : ∀ file, s.store.files f = some file → post () ((s.setFile f none).setStore { (s.setFile f none).store with
        pages := (file.pages.take file.pagesN).reverse ++ s.store.pages })) :
    Ends strict cfg w (fileFree f) post s := by
  unfold fileFree
  rw [ends_bind]
  refine ends_call (by simp) fun file s' step => ?_
  obtain ⟨file', found, step⟩ := Server.onFile_eq_ok.mp step
  cases step
  simp only [if_neg (Nat.not_lt.mpr (whole file found))]
  exact ends_pageAddAll (h file found)

/-! ## `fileDeleteFIFO` -/

def Store.lookup (cfg : Config) (σ : Store) (name : Path) : Outcome Fault (Option FileId) :=
  (σ.hashTbSearch cfg name .src).andThen fun (f, _) => .ok f

theorem Store.lookup_paths {σ σ' : Store} (table : σ'.table = σ.table)
    (same : ∀ f, (σ'.files f).map MemFile.abspath = (σ.files f).map MemFile.abspath) (name : Path) :
    σ'.lookup cfg name = σ.lookup cfg name := by
  simp only [Store.lookup, Store.hashTbSearch, searchBucket_paths same, table, Outcome.andThen_assoc]
  congr 1
  funext result
  cases result <;> rfl

theorem Store.lookup_eq_ok {σ : Store} {name : Path} {f : Option FileId} :
    σ.lookup cfg name = .ok f ↔ σ.hashTbSearch cfg name .src = .ok (f, σ) := by
  unfold Store.lookup
  rw [Outcome.andThen_eq_ok]
  constructor
  · rintro ⟨⟨g, σ'⟩, searched, same⟩
    cases same
    rw [searched, Store.hashTbSearch_src_store searched]
  · intro searched
    exact ⟨_, searched, rfl⟩

theorem ends_fileStackGetTop {str : CStr} {post : Option FileId → Server W → Prop}
    (empty : s.store.fstack.top = 0 → post none s)
    (found : ∀ path v stack, s.readStr str = .ok path →
      s.store.fstack.getTop (s.store.lookup cfg) path = .ok (v, stack) →
      post (some v) (s.setStack stack)) :
    Ends strict cfg w (fileStackGetTop str) post s := by
  unfold fileStackGetTop
  rw [ends_bind]
  refine ends_call (by simp) fun top s' step => ?_
  cases step
  by_cases zero : s.store.fstack.top = 0
  · rw [if_pos zero]
    exact empty zero
  · rw [if_neg zero, ends_bind, ends_lock]
    intro _ free
    rw [ends_bind]
    refine ends_call (by simp) fun v s' step => ?_
    rw [ends_bind, ends_unlock]
    intro _
    simp only [Server.exec, readStr_setOwner, Server.setOwner_store] at step
    obtain ⟨path, read, step⟩ := Outcome.andThen_eq_ok.mp step
    obtain ⟨⟨v', stack⟩, scanned, step⟩ := Outcome.andThen_eq_ok.mp step
    cases step
    have release : ((s.setOwner .hashTB (some w)).setStack stack).setOwner .hashTB none =
        s.setStack stack := Server.setOwner_release (s.setStack stack) w free
    rw [release]
    exact found path v' stack read scanned

theorem FileStack.scanDown_found {search : Path → Outcome Fault (Option FileId)}
    {stack : List (Option Path)} {n i : Nat} {f : FileId}
    (scanned : scanDown search stack n = .ok (i, f)) :
    i < n ∧ ∃ name, stack[i]? = some (some name) ∧ search name = .ok (some f) := by
  induction n with
  | zero => cases scanned
  | succ n ih =>
      have below (h : scanDown search stack n = .ok (i, f)) :
          i < n + 1 ∧ ∃ name, stack[i]? = some (some name) ∧ search name = .ok (some f) :=
        ⟨Nat.lt_succ_of_lt (ih h).1, (ih h).2⟩
      simp only [scanDown] at scanned
      split at scanned
      · cases scanned
      · exact below scanned
      · rename_i name cell
        obtain ⟨result, searched, rest⟩ := Outcome.andThen_eq_ok.mp scanned
        cases result with
        | none => exact below rest
        | some g =>
            cases rest
            exact ⟨Nat.lt_succ_self _, name, cell, searched⟩

theorem FileStack.scan_found {search : Path → Outcome Fault (Option FileId)}
    {stack : List (Option Path)} {n : Nat} {f : FileId} {stack' : FileStack} (upd : Nat → FileStack)
    (scanned : (scanDown search stack n).andThen (fun p => .ok (p.2, upd p.1)) = .ok (f, stack')) :
    ∃ name, search name = .ok (some f) := by
  obtain ⟨⟨i, g⟩, down, rest⟩ := Outcome.andThen_eq_ok.mp scanned
  cases rest
  obtain ⟨-, name, -, searched⟩ := scanDown_found down
  exact ⟨name, searched⟩

theorem FileStack.getTop_found {search : Path → Outcome Fault (Option FileId)}
    {stack stack' : FileStack} {path : Option Path} {f : FileId}
    (scanned : stack.getTop search path = .ok (f, stack')) :
    ∃ name, search name = .ok (some f) := by
  have fromTop (h : (scanDown search stack.stack stack.top).andThen (fun p =>
      .ok (p.2, { stack with top := p.1, stack := stack.stack.set p.1 none })) = .ok (f, stack')) :
      ∃ name, search name = .ok (some f) :=
    scan_found (fun i => { stack with top := i, stack := stack.stack.set i none }) h
  cases path with
  | none => exact fromTop scanned
  | some path =>
      simp only [getTop] at scanned
      split at scanned
      · cases scanned
      · cases scanned
      · split at scanned
        · exact scan_found (fun i => { stack with stack := stack.stack.set i none }) scanned
        · exact fromTop scanned

/-- Everything a successful `fileDeleteFIFO` or `fileDelete` does to the store: `v` (or another record
of its path) leaves the table, and its pages go back to the list. -/
structure Removes (cfg : Config) (s s' : Server W) (v : FileId) (file : MemFile) : Prop where
  alive : s.store.files v = some file
  free : s.owner (.file v) = none
  named : ∃ name, s.store.lookup cfg name = .ok (some v)
  removed : ∃ f, s.store.hashTbSearch cfg file.abspath .del =
    .ok (f, { s.store with table := s'.store.table })
  result : s' = s.setStore { s.store with
    fstack := s'.store.fstack, table := s'.store.table
    files := Function.update s.store.files v none
    pages := (file.pages.take file.pagesN).reverse ++ s.store.pages }

theorem hashTbSearch_setStack (σ : Store) (stack : FileStack) (path : Path) (flag : Flag) :
    ({ σ with fstack := stack } : Store).hashTbSearch cfg path flag =
      (σ.hashTbSearch cfg path flag).andThen fun (f, σ') => .ok (f, { σ' with fstack := stack }) := by
  dsimp only [Store.hashTbSearch]
  cases searchBucket σ.files (hashKey path) path (σ.table.getD (Store.hashTbPos cfg path) []) with
  | ok r =>
      cases r with
      | none => rfl
      | some pair => cases flag <;> rfl
  | _ => rfl

theorem hashTbSearch_table {σ σ' : Store} {path : Path} {flag : Flag} {f : Option FileId}
    (searched : σ.hashTbSearch cfg path flag = .ok (f, σ')) :
    σ' = { σ with table := σ'.table } := by
  cases f with
  | none => rw [(Store.hashTbSearch_none searched).1]
  | some f =>
      obtain ⟨others, -, same⟩ := Store.hashTbSearch_some searched
      split at same <;> rw [same]

theorem ends_fileDeleteFIFO {str : CStr} {post : Int → Server W → Prop}
    (whole : ∀ name v file, s.store.lookup cfg name = .ok (some v) → s.owner (.file v) = none →
      s.store.files v = some file → file.pagesN ≤ file.pages.length)
    (empty : s.store.fstack.top = 0 → post (-1) s)
    (evicted : ∀ v file s', Removes cfg s s' v file → post 0 s') :
    Ends strict cfg w (fileDeleteFIFO str) post s := by
  unfold fileDeleteFIFO
  rw [ends_bind, ends_lock]
  intro _ free
  rw [ends_bind]
  refine ends_fileStackGetTop (fun zero => ?_) (fun path v stack read scanned => ?_)
  · rw [ends_bind, ends_unlock]
    intro _
    rw [Server.setOwner_release s w free]
    exact empty zero
  · rw [ends_bind, ends_lock]
    intro live vfree
    have vfree' : s.owner (.file v) = none := by
      simpa [Server.setStack] using vfree
    obtain ⟨name, named⟩ := FileStack.getTop_found scanned
    rw [ends_bind]
    refine ends_hashGetFile (fun null => ?_) (fun abspath found σ read' searched => ?_)
    · obtain ⟨file, -, wrong⟩ := Server.onFile_eq_ok.mp null
      cases wrong
    obtain ⟨file, alive, same⟩ := Server.onFile_eq_ok.mp read'
    cases same
    rw [ends_bind, ends_unlock]
    intro _
    rw [ends_bind, ends_unlock]
    intro _
    change s.store.files v = some file at alive
    have searched' : s.store.hashTbSearch cfg file.abspath .del =
        .ok (found, { s.store with table := σ.table }) := by
      change ({ s.store with fstack := stack } : Store).hashTbSearch cfg file.abspath .del = _
        at searched
      rw [hashTbSearch_setStack, Outcome.andThen_eq_ok] at searched
      obtain ⟨⟨f, σ'⟩, before, after⟩ := searched
      cases after
      rw [before, ← hashTbSearch_table before]
    have fields := hashTbSearch_table searched
    have sameFile (file' : MemFile) (here : σ.files v = some file') : file' = file := by
      rw [fields] at here
      exact Option.some.inj (here.symm.trans alive)
    rw [ends_bind]
    refine ends_fileFree (fun file' alive' => ?_) fun file' alive' => ?_
    · rw [sameFile file' alive']
      exact whole name v file named vfree' alive
    cases sameFile file' alive'
    refine evicted v file _ ⟨alive, vfree', ⟨name, named⟩, ⟨found, ?_⟩, ?_⟩
    · exact searched'
    · rw [fields]
      cases s with
      | mk store owner sent =>
          simp only [Server.setOwner, Server.setStack, Server.setStore, Server.setFile,
            Server.mk.injEq, and_true]
          refine ⟨trivial, funext fun m => ?_⟩
          by_cases stackMutex : m = .filestack
          · subst stackMutex
            simpa using free.symm
          · by_cases victim : m = .file v
            · subst victim
              simpa using vfree'.symm
            · simp [stackMutex, victim]

end

end FileServer
