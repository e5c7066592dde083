import FileServer.Proof.Sequential.Eviction

/-!
# Consistent stores

The invariant of the store between two requests and, with `busy` the record being filled and
`extra` the pages in nobody's hands but the handler's, in the middle of one.
-/

namespace FileServer
open Program

structure MemFile.Shaped (cfg : Config) (file : MemFile) : Prop where
  filled : file.pages.length = file.pagesN
  geometry : file.pagesN = 0 ∧ file.size = 0 ∨
    0 < file.pagesN ∧ file.pagesN ≤ file.size / cfg.pageSize + 1
  bounded : file.size ≤ cfg.serverMemorySize

theorem MemFile.Shaped.few {cfg : Config} {file : MemFile} (shaped : file.Shaped cfg) :
    file.pagesN ≤ file.size / cfg.pageSize + 1 := by
  rcases shaped.geometry with empty | filled
  · rw [empty.1]
    exact Nat.zero_le _
  · exact filled.2

def pagesOf (files : FileId → Option MemFile) (f : FileId) : List Nat :=
  (files f).elim [] MemFile.pages

def Store.ownedPages (σ : Store) : List Nat := σ.recorded.flatMap (pagesOf σ.files)

structure Consistent (cfg : Config) (busy : Option FileId) (extra : List Nat) (σ : Store) :
    Prop where
  tableLen : σ.table.length = cfg.fileHashTbSize
  keyed : ∀ i entry, entry ∈ σ.table.getD i [] → ∃ file, σ.files entry.data = some file ∧
    entry.key = hashKey file.abspath ∧ i = Store.hashTbPos cfg file.abspath
  nodup : σ.recorded.Nodup
  fresh : ∀ f, σ.next ≤ f → σ.files f = none
  ledger : (σ.pages ++ extra ++ σ.ownedPages).Perm (List.range σ.pageN)
  pageN : σ.pageN = cfg.serverMemorySize / cfg.pageSize
  buffers : ∀ page, (σ.memPtr page).length = cfg.pageSize
  shaped : ∀ f file, f ∈ σ.recorded → σ.files f = some file → some f ≠ busy → file.Shaped cfg

theorem pagesOf_some {files : FileId → Option MemFile} {f : FileId} {file : MemFile}
    (found : files f = some file) : pagesOf files f = file.pages := by
  simp [pagesOf, found]

theorem pagesOf_congr {files files' : FileId → Option MemFile} {f : FileId}
    (same : files f = files' f) : pagesOf files f = pagesOf files' f := by
  unfold pagesOf
  rw [same]

theorem pagesOf_update_of_ne {files : FileId → Option MemFile} {f g : FileId}
    (file : Option MemFile) (h : g ≠ f) :
    pagesOf (Function.update files f file) g = pagesOf files g := by
  simp [pagesOf, h]

theorem pagesOf_update_self {files : FileId → Option MemFile} {f : FileId} (file : MemFile) :
    pagesOf (Function.update files f (some file)) f = file.pages := by
  simp [pagesOf]

theorem Store.mem_recorded {σ : Store} {f : FileId} :
    f ∈ σ.recorded ↔ ∃ i entry, entry ∈ σ.table.getD i [] ∧ entry.data = f := by
  constructor
  · intro mem
    obtain ⟨entry, inTable, same⟩ := List.mem_map.mp mem
    obtain ⟨bucket, isBucket, inBucket⟩ := List.mem_flatten.mp inTable
    obtain ⟨i, inside, here⟩ := List.getElem_of_mem isBucket
    exact ⟨i, entry, by simpa [List.getD, inside, here] using inBucket, same⟩
  · rintro ⟨i, entry, inBucket, same⟩
    exact List.mem_map.mpr ⟨entry, getD_mem_flatten inBucket, same⟩

namespace Consistent
variable {cfg : Config} {busy : Option FileId} {extra : List Nat} {σ : Store}

theorem alive (consistent : Consistent cfg busy extra σ) {f : FileId} (mem : f ∈ σ.recorded) :
    ∃ file, σ.files f = some file := by
  obtain ⟨i, entry, inBucket, rfl⟩ := Store.mem_recorded.mp mem
  obtain ⟨file, found, -⟩ := consistent.keyed i entry inBucket
  exact ⟨file, found⟩

theorem inside (consistent : Consistent cfg busy extra σ) (path : Path) :
    Store.hashTbPos cfg path < σ.table.length := by
  rw [consistent.tableLen]
  exact Nat.mod_lt _ cfg.fileHashTbSize_pos

theorem search_ok (consistent : Consistent cfg busy extra σ) (path : Path) (flag : Flag) :
    ∃ f σ', σ.hashTbSearch cfg path flag = .ok (f, σ') := by
  have alive : ∀ entry ∈ σ.table.getD (Store.hashTbPos cfg path) [], σ.files entry.data ≠ none := by
    intro entry mem
    obtain ⟨file, found, -⟩ := consistent.keyed _ entry mem
    simp [found]
  obtain ⟨result, searched⟩ := searchBucket_ok alive (hashKey path) path
  dsimp only [Store.hashTbSearch]
  rw [searched]
  cases result with
  | none => exact ⟨none, σ, rfl⟩
  | some pair => cases flag <;> exact ⟨_, _, rfl⟩

theorem found_key (consistent : Consistent cfg busy extra σ) {path : Path} {flag : Flag}
    {f : FileId} {σ' : Store} (found : σ.hashTbSearch cfg path flag = .ok (some f, σ')) :
    ∃ file, σ.files f = some file ∧ hashKey path = hashKey file.abspath ∧
      path.take posixPathMax = file.abspath.take posixPathMax := by
  obtain ⟨others, searched, -⟩ := Store.hashTbSearch_some found
  obtain ⟨before, after, file, split, -, alive, same⟩ := searchBucket_some searched
  have mem : (⟨f, hashKey path⟩ : HashEntry) ∈ σ.table.getD (Store.hashTbPos cfg path) [] := by
    rw [split]
    exact List.mem_append_right _ List.mem_cons_self
  obtain ⟨file', found', key, -⟩ := consistent.keyed _ _ mem
  have sameFile : file' = file := Option.some.inj (found'.symm.trans alive)
  subst sameFile
  exact ⟨file', alive, key, strncmpEq_iff.mp same⟩

theorem del_same (consistent : Consistent cfg busy extra σ) {name : Path} {v : FileId}
    {file : MemFile} (named : σ.lookup cfg name = .ok (some v)) (alive : σ.files v = some file)
    {f : Option FileId} {σ' : Store}
    (removed : σ.hashTbSearch cfg file.abspath .del = .ok (f, σ')) : f = some v := by
  have searched := Store.lookup_eq_ok.mp named
  obtain ⟨file', alive', key, same⟩ := consistent.found_key searched
  have sameFile : file' = file := Option.some.inj (alive'.symm.trans alive)
  subst sameFile
  rw [Store.hashTbSearch_congr key same] at searched
  have again := Store.hashTbSearch_del_iff.mp ⟨σ', removed⟩
  rw [searched] at again
  cases again
  rfl

theorem ledger_nodup (consistent : Consistent cfg busy extra σ) :
    (σ.pages ++ extra ++ σ.ownedPages).Nodup :=
  consistent.ledger.nodup_iff.mpr List.nodup_range

theorem exchange (consistent : Consistent cfg busy extra σ) {pages extra' : List Nat}
    (moved : (pages ++ extra').Perm (σ.pages ++ extra)) :
    Consistent cfg busy extra' { σ with pages := pages } :=
  { consistent with ledger := (moved.append_right _).trans consistent.ledger }

theorem reframe (consistent : Consistent cfg busy extra σ) (fileN : Int) (fstack : FileStack) :
    Consistent cfg busy extra { σ with fileN := fileN, fstack := fstack } :=
  { consistent with }

end Consistent

/-! ## What survives evictions -/

/-- `s'` is `s` after some evictions and page-list traffic: whatever is still recorded is
untouched, except for `target`, and a file whose mutex is taken cannot go away. -/
structure Shrinks {W : Type} (target : Option FileId) (s s' : Server W) : Prop where
  owner : s'.owner = s.owner
  sent : s'.sent = s.sent
  memPtr : s'.store.memPtr = s.store.memPtr
  next : s'.store.next = s.store.next
  sub : s'.store.recorded ⊆ s.store.recorded
  files : ∀ f ∈ s'.store.recorded, some f ≠ target → s'.store.files f = s.store.files f
  held : ∀ f ∈ s.store.recorded, s.owner (.file f) ≠ none → f ∈ s'.store.recorded

namespace Shrinks
variable {W : Type} {target : Option FileId} {s s₁ s₂ : Server W}

theorem refl (target : Option FileId) (s : Server W) : Shrinks target s s :=
  ⟨rfl, rfl, rfl, rfl, fun _ h => h, fun _ _ _ => rfl, fun _ h _ => h⟩

theorem trans (first : Shrinks target s s₁) (second : Shrinks target s₁ s₂) :
    Shrinks target s s₂ where
  owner := second.owner.trans first.owner
  sent := second.sent.trans first.sent
  memPtr := second.memPtr.trans first.memPtr
  next := second.next.trans first.next
  sub := fun _ mem => first.sub (second.sub mem)
  files := fun f mem other =>
    (second.files f mem other).trans (first.files f (second.sub mem) other)
  held := fun f mem taken => second.held f (first.held f mem taken) (by rwa [first.owner])

theorem weaken (shrinks : Shrinks none s s₁) (target : Option FileId) : Shrinks target s s₁ :=
  { shrinks with files := fun f mem _ => shrinks.files f mem nofun }

theorem bookkeeping (s : Server W) (pages : List Nat) (fileN : Int) (fstack : FileStack) :
    Shrinks none s (s.setStore { s.store with pages := pages, fileN := fileN, fstack := fstack }) :=
  ⟨rfl, rfl, rfl, rfl, fun _ h => h, fun _ _ _ => rfl, fun _ h _ => h⟩

end Shrinks

section
variable {W : Type} {strict : Prop} {cfg : Config} {w : W} {s s' : Server W} {busy : Option FileId}
  {extra : List Nat} {v : FileId} {file : MemFile}

theorem Removes.recorded (removes : Removes cfg s s' v file)
    (consistent : Consistent cfg busy extra s.store) :
    s.store.recorded.Perm (v :: s'.store.recorded) := by
  obtain ⟨f, removed⟩ := removes.removed
  obtain ⟨name, named⟩ := removes.named
  have same := consistent.del_same named removes.alive removed
  subst same
  have perm := Store.hashTbSearch_del_recorded removed
  exact perm

theorem Removes.victim_nmem (removes : Removes cfg s s' v file)
    (consistent : Consistent cfg busy extra s.store) : v ∉ s'.store.recorded := by
  have nodup := (removes.recorded consistent).nodup_iff.mp consistent.nodup
  exact (List.nodup_cons.mp nodup).1

theorem Removes.shrinks (removes : Removes cfg s s' v file)
    (consistent : Consistent cfg busy extra s.store) : Shrinks none s s' := by
  have perm := removes.recorded consistent
  have gone := removes.victim_nmem consistent
  have result := removes.result
  have files : s'.store.files = Function.update s.store.files v none := by rw [result]; rfl
  refine ⟨by rw [result]; rfl, by rw [result]; rfl, by rw [result]; rfl, by rw [result]; rfl,
    fun f mem => ?_, fun f mem _ => ?_, fun f mem taken => ?_⟩
  · exact perm.mem_iff.mpr (List.mem_cons_of_mem v mem)
  · have ne : f ≠ v := fun same => gone (same ▸ mem)
    rw [files, Function.update_of_ne ne]
  · rcases List.mem_cons.mp (perm.mem_iff.mp mem) with same | mem'
    · exact absurd removes.free (same ▸ taken)
    · exact mem'

theorem Removes.consistent (removes : Removes cfg s s' v file)
    (consistent : Consistent cfg busy extra s.store) (other : some v ≠ busy) :
    Consistent cfg busy extra s'.store := by
  have perm := removes.recorded consistent
  have gone := removes.victim_nmem consistent
  have shrinks := removes.shrinks consistent
  have result := removes.result
  have files : s'.store.files = Function.update s.store.files v none := by rw [result]; rfl
  have vmem : v ∈ s.store.recorded := perm.mem_iff.mpr List.mem_cons_self
  have shaped := consistent.shaped v file vmem removes.alive other
  obtain ⟨found, removed⟩ := removes.removed
  obtain ⟨name, named⟩ := removes.named
  have same := consistent.del_same named removes.alive removed
  subst same
  obtain ⟨others, searched, table⟩ := Store.hashTbSearch_some removed
  obtain ⟨before, after, file', split, rfl, -⟩ := searchBucket_some searched
  have table' : s'.store.table =
      s.store.table.set (Store.hashTbPos cfg file.abspath) (before ++ after) := by
    simpa using congrArg Store.table table
  -- the pages of the other recorded files have not changed
  have owned : s.store.ownedPages.Perm (file.pages ++ s'.store.ownedPages) := by
    have step : s.store.ownedPages.Perm ((v :: s'.store.recorded).flatMap (pagesOf s.store.files)) :=
      perm.flatMap_right _
    have rest : s'.store.recorded.flatMap (pagesOf s.store.files) = s'.store.ownedPages := by
      unfold Store.ownedPages
      refine List.flatMap_congr fun f mem => ?_
      simp [pagesOf, shrinks.files f mem nofun]
    rwa [List.flatMap_cons, pagesOf_some removes.alive, rest] at step
  refine ⟨?_, fun i entry mem => ?_, ?_, fun f le => ?_, ?_, ?_, ?_, fun f g mem found ne => ?_⟩
  · rw [table', List.length_set]
    exact consistent.tableLen
  · have old : entry ∈ s.store.table.getD i [] := by
      rw [table'] at mem
      by_cases here : i = Store.hashTbPos cfg file.abspath
      · subst here
        rw [split]
        have inside := consistent.inside file.abspath
        simp only [List.getD, List.getElem?_set_self inside, Option.getD_some] at mem
        rcases List.mem_append.mp mem with h | h
        · exact List.mem_append_left _ h
        · exact List.mem_append_right _ (List.mem_cons_of_mem _ h)
      · simpa [List.getD, List.getElem?_set_ne (Ne.symm here)] using mem
    have mem' : entry.data ∈ s'.store.recorded := Store.mem_recorded.mpr ⟨i, entry, mem, rfl⟩
    rw [shrinks.files _ mem' nofun]
    exact consistent.keyed i entry old
  · exact (List.nodup_cons.mp (perm.nodup_iff.mp consistent.nodup)).2
  · rw [files]
    by_cases here : f = v
    · rw [here, Function.update_self]
    · rw [Function.update_of_ne here]
      exact consistent.fresh f (by rwa [← shrinks.next])
  · have pages : s'.store.pages = file.pages.reverse ++ s.store.pages := by
      rw [result, ← shaped.filled, List.take_length]
      rfl
    have pageN : s'.store.pageN = s.store.pageN := by rw [result]; rfl
    rw [pages, pageN]
    refine List.Perm.trans ?_ consistent.ledger
    calc file.pages.reverse ++ s.store.pages ++ extra ++ s'.store.ownedPages
        _ = file.pages.reverse ++ ((s.store.pages ++ extra) ++ s'.store.ownedPages) := by
            simp only [List.append_assoc]
        _ |>.Perm (file.pages ++ ((s.store.pages ++ extra) ++ s'.store.ownedPages)) :=
            (List.reverse_perm _).append_right _
        _ |>.Perm ((s.store.pages ++ extra) ++ (file.pages ++ s'.store.ownedPages)) :=
            List.perm_append_comm_assoc _ _ _
        _ |>.Perm ((s.store.pages ++ extra) ++ s.store.ownedPages) := owned.symm.append_left _
  · rw [result]
    exact consistent.pageN
  · rw [shrinks.memPtr]
    exact consistent.buffers
  · rw [shrinks.files f mem nofun] at found
    exact consistent.shaped f g (shrinks.sub mem) found ne

/-! ## Getting pages -/

theorem ends_fileDeleteFIFO_consistent {str : CStr}
    (consistent : Consistent cfg busy extra s.store)
    (held : ∀ f, busy = some f → s.owner (.file f) ≠ none) :
    Ends strict cfg w (fileDeleteFIFO str)
      (fun _ s' => Consistent cfg busy extra s'.store ∧ Shrinks none s s') s := by
  refine ends_fileDeleteFIFO (fun name v file named free alive => ?_)
    (fun _ => ⟨consistent, .refl none s⟩) fun v file s' removes => ?_
  · have other : some v ≠ busy := fun same => held v same.symm free
    have mem := Store.hashTbSearch_mem (Store.lookup_eq_ok.mp named)
    exact Nat.le_of_eq (consistent.shaped v file mem alive other).filled.symm
  have other : some v ≠ busy := fun same => held v same.symm removes.free
  exact ⟨removes.consistent consistent other, removes.shrinks consistent⟩

theorem ends_fileNDecrease {post : Unit → Server W → Prop}
    (h : post () (s.setStore { s.store with fileN := s.store.fileN - 1 })) :
    Ends strict cfg w fileNDecrease post s := by
  unfold fileNDecrease
  rw [ends_bind, ends_lock]
  intro _ free
  rw [ends_bind]
  refine ends_call (by simp) fun x s' step => ?_
  cases step
  rw [ends_unlock]
  intro _
  rw [setStore_release _ free]
  exact h

theorem ends_pageGetLoop {str : CStr} (fuel : Nat) (consistent : Consistent cfg busy extra s.store)
    (held : ∀ f, busy = some f → s.owner (.file f) ≠ none) :
    Ends strict cfg w (pageGetLoop str fuel)
      (fun page s' => Consistent cfg busy (page :: extra) s'.store ∧ Shrinks none s s') s := by
  induction fuel generalizing s with
  | zero => exact ends_spin
  | succ fuel ih =>
      -- after an attempt to evict, one more look at the page list
      have retry {s₁ : Server W} (consistent₁ : Consistent cfg busy extra s₁.store)
          (shrinks₁ : Shrinks none s s₁) :
          Ends strict cfg w (pageRetry str fuel)
            (fun page s' => Consistent cfg busy (page :: extra) s'.store ∧ Shrinks none s s') s₁ := by
        unfold pageRetry
        rw [ends_bind]
        refine ends_pageTake (fun _ => ?_) (fun page rest list => ?_)
        · have again := ih consistent₁ (fun f same => by rw [shrinks₁.owner]; exact held f same)
          exact wp_mono again fun page s' h => ⟨h.1, shrinks₁.trans h.2⟩
        · refine ⟨consistent₁.exchange ?_, shrinks₁.trans (Shrinks.bookkeeping s₁ rest _ _)⟩
          rw [list, List.cons_append]
          exact List.perm_middle
      rw [pageGetLoop_succ]
      rw [ends_bind]
      refine wp_mono (ends_fileDeleteFIFO_consistent consistent held) fun deleted s₁ h => ?_
      by_cases failed : deleted ≠ -1
      · simp only [if_pos failed]
        rw [ends_bind]
        refine ends_fileNDecrease (retry (h.1.reframe _ _) (h.2.trans ?_))
        exact Shrinks.bookkeeping s₁ _ _ _
      · simp only [if_neg failed]
        exact retry h.1 h.2

theorem ends_pageGet {str : CStr} (fuel : Nat) (consistent : Consistent cfg busy extra s.store)
    (held : ∀ f, busy = some f → s.owner (.file f) ≠ none) :
    Ends strict cfg w (pageGet fuel str)
      (fun page s' => Consistent cfg busy (page :: extra) s'.store ∧ Shrinks none s s') s := by
  unfold pageGet
  rw [ends_bind]
  refine ends_pageTake (fun _ => ends_pageGetLoop fuel consistent held) (fun page rest list => ?_)
  refine ⟨consistent.exchange ?_, Shrinks.bookkeeping s rest _ _⟩
  rw [list, List.cons_append]
  exact List.perm_middle

theorem ends_fileNUpdate (nMax : Nat) (consistent : Consistent cfg busy extra s.store)
    (held : ∀ f, busy = some f → s.owner (.file f) ≠ none) :
    Ends strict cfg w (fileNUpdate nMax)
      (fun _ s' => Consistent cfg busy extra s'.store ∧ Shrinks none s s') s := by
  unfold fileNUpdate
  rw [ends_bind, ends_lock]
  intro _ free
  -- `file_n_mutex` is held throughout
  have release {s₁ : Server W} (consistent₁ : Consistent cfg busy extra s₁.store)
      (shrinks₁ : Shrinks none (s.setOwner .fileN (some w)) s₁) (ret : Int) :
      Ends strict cfg w (do unlock .fileN; return ret)
        (fun _ s' => Consistent cfg busy extra s'.store ∧ Shrinks none s s') s₁ := by
    rw [ends_bind, ends_unlock]
    intro _
    have owner : (s₁.setOwner .fileN none).owner = s.owner := by
      change Function.update s₁.owner .fileN none = s.owner
      rw [shrinks₁.owner]
      exact congrArg Server.owner (Server.setOwner_release s w free)
    refine ⟨consistent₁, owner, shrinks₁.sent, shrinks₁.memPtr, shrinks₁.next, shrinks₁.sub,
      shrinks₁.files, fun f mem taken => shrinks₁.held f mem ?_⟩
    simpa using taken
  rw [ends_bind]
  refine ends_call (by simp) fun counted s₁ step => ?_
  simp only [Server.exec] at step
  split at step
  · cases step
    dsimp only
    rw [if_neg (by decide), ends_bind]
    have locked : ∀ f, busy = some f → (s.setOwner .fileN (some w)).owner (.file f) ≠ none := by
      intro f same
      simpa using held f same
    refine wp_mono (ends_fileDeleteFIFO_consistent (s := s.setOwner .fileN (some w))
      consistent locked) fun ret s₁ h => ?_
    exact release h.1 h.2 ret
  · cases step
    dsimp only
    rw [if_pos rfl]
    exact release (consistent.reframe (s.store.fileN + 1) s.store.fstack)
      (Shrinks.bookkeeping _ _ _ _) 1

end

end FileServer
