import FileServer.Proof.Sequential.Consistent

/-!
# Growing one file

`filePagesInitialize` and `filePagesRenew` hand pages to a locked file while other files may be
evicted.
-/

namespace FileServer
open Program

section
variable {W : Type} {strict : Prop} {cfg : Config} {w : W} {s s' : Server W} {f : FileId}
  {file file' : MemFile} {busy : Option FileId} {extra extra' : List Nat}

theorem Consistent.setFile (consistent : Consistent cfg busy extra s.store)
    (mem : f ∈ s.store.recorded) (found : s.store.files f = some file)
    (samePath : file'.abspath = file.abspath)
    (moved : (extra' ++ file'.pages).Perm (extra ++ file.pages))
    (only : ∀ g, busy = some g → g = f) :
    Consistent cfg (some f) extra' (s.setFile f (some file')).store := by
  have split := List.perm_cons_erase mem
  have owned : s.store.ownedPages.Perm
      (file.pages ++ (s.store.recorded.erase f).flatMap (pagesOf s.store.files)) := by
    have step := split.flatMap_right (pagesOf s.store.files)
    rwa [List.flatMap_cons, pagesOf_some found] at step
  have owned' : (s.setFile f (some file')).store.ownedPages.Perm
      (file'.pages ++ (s.store.recorded.erase f).flatMap (pagesOf s.store.files)) := by
    have step := split.flatMap_right (pagesOf (s.setFile f (some file')).store.files)
    have rest : (s.store.recorded.erase f).flatMap
        (pagesOf (s.setFile f (some file')).store.files) =
          (s.store.recorded.erase f).flatMap (pagesOf s.store.files) := by
      refine List.flatMap_congr fun g isIn => pagesOf_update_of_ne _ ?_
      exact (consistent.nodup.mem_erase_iff.mp isIn).1
    rw [List.flatMap_cons, rest] at step
    refine step.trans (List.Perm.of_eq ?_)
    exact congrArg (· ++ _) (pagesOf_update_self file')
  refine { tableLen := consistent.tableLen, keyed := fun i entry isIn => ?_
           nodup := consistent.nodup, fresh := fun g le => ?_, ledger := ?_
           pageN := consistent.pageN, buffers := consistent.buffers
           shaped := fun g file'' isIn here other => ?_ }
  · obtain ⟨old, alive, key, position⟩ := consistent.keyed i entry isIn
    by_cases same : entry.data = f
    · rw [same] at alive
      cases Option.some.inj (alive.symm.trans found)
      refine ⟨file', ?_, ?_⟩
      · rw [same]
        exact Function.update_self ..
      · rw [samePath]
        exact ⟨key, position⟩
    · refine ⟨old, ?_, key, position⟩
      rw [← alive]
      exact Function.update_of_ne same ..
  · have ne : g ≠ f := by
      rintro rfl
      cases found.symm.trans (consistent.fresh g le)
    exact (Function.update_of_ne ne ..).trans (consistent.fresh g le)
  · have exchange : (extra' ++ (s.setFile f (some file')).store.ownedPages).Perm
        (extra ++ s.store.ownedPages) := by
      refine (owned'.append_left extra').trans (List.Perm.trans ?_ (owned.symm.append_left extra))
      rw [← List.append_assoc, ← List.append_assoc]
      exact moved.append_right _
    refine List.Perm.trans ?_ consistent.ledger
    rw [List.append_assoc, List.append_assoc]
    exact exchange.append_left _
  · have ne : g ≠ f := fun same => other (congrArg some same)
    refine consistent.shaped g file'' isIn ?_ fun same => ne (only g same.symm)
    exact (Function.update_of_ne ne ..).symm.trans here

theorem Consistent.settle {σ : Store} (consistent : Consistent cfg (some f) extra σ)
    (shaped : ∀ file, σ.files f = some file → file.Shaped cfg) : Consistent cfg none extra σ := by
  refine { consistent with shaped := fun g file mem found _ => ?_ }
  by_cases same : g = f
  · subst same
    exact shaped file found
  · exact consistent.shaped g file mem found fun h => same (Option.some.inj h)

theorem Shrinks.setFile (s : Server W) (f : FileId) (file : Option MemFile) :
    Shrinks (some f) s (s.setFile f file) where
  owner := rfl
  sent := rfl
  memPtr := rfl
  next := rfl
  sub := fun _ mem => mem
  files := fun _ _ other => Function.update_of_ne (fun same => other (congrArg some same)) ..
  held := fun _ mem _ => mem

/-- The state `s'` of a handler that holds the mutex of `f` and has grown it to `file'`. -/
structure Grew (cfg : Config) (f : FileId) (file' : MemFile) (s s' : Server W) : Prop where
  consistent : Consistent cfg (some f) [] s'.store
  shrinks : Shrinks (some f) s s'
  found : s'.store.files f = some file'

theorem ends_filePagesFill (fuel n : Nat) (consistent : Consistent cfg (some f) [] s.store)
    (mem : f ∈ s.store.recorded) (found : s.store.files f = some file)
    (held : s.owner (.file f) ≠ none) :
    Ends strict cfg w (filePagesFill fuel f n)
      (fun _ s' => ∃ pages, pages.length = n ∧
        Grew cfg f { file with pages := file.pages ++ pages } s s') s := by
  induction n generalizing s file with
  | zero =>
      refine ⟨[], rfl, consistent, .refl _ s, ?_⟩
      rw [List.append_nil]
      exact found
  | succ n ih =>
      have locked : ∀ g, some f = some g → s.owner (.file g) ≠ none := by
        rintro g same
        cases same
        exact held
      unfold filePagesFill
      rw [ends_bind]
      refine wp_mono (ends_pageGet fuel consistent locked) ?_
      rintro page s₁ ⟨consistent₁, shrinks₁⟩
      have mem₁ := shrinks₁.held f mem held
      have found₁ := (shrinks₁.files f mem₁ nofun).trans found
      rw [ends_bind, ends_store]
      intro file₁ same
      cases Option.some.inj (same.symm.trans found₁)
      have consistent₂ : Consistent cfg (some f) []
          (s₁.setFile f (some (file.write (.pagesFill page)))).store := by
        refine consistent₁.setFile mem₁ found₁ rfl ?_ fun g same => (Option.some.inj same).symm
        show (file.pages ++ [page]).Perm ([page] ++ file.pages)
        exact List.perm_append_comm
      have again := ih consistent₂ mem₁ (Function.update_self ..) (by rwa [← shrinks₁.owner] at held)
      refine wp_mono again ?_
      rintro _ s₂ ⟨pages, length, grew⟩
      refine ⟨page :: pages, by rw [List.length_cons, length], grew.consistent, ?_, ?_⟩
      · exact (shrinks₁.weaken _).trans ((Shrinks.setFile s₁ f _).trans grew.shrinks)
      · rw [grew.found]
        simp [MemFile.write]

theorem ends_filePagesInitialize (fuel : Nat) (consistent : Consistent cfg (some f) [] s.store)
    (mem : f ∈ s.store.recorded) (found : s.store.files f = some file) (empty : file.pages = [])
    (held : s.owner (.file f) ≠ none) :
    Ends strict cfg w (filePagesInitialize cfg fuel f)
      (fun _ s' => ∃ pages, pages.length = pagesFor cfg file.size ∧
        Grew cfg f { file with pagesN := pagesFor cfg file.size, pages := pages } s s') s := by
  have only : ∀ g, some f = some g → g = f := fun g same => (Option.some.inj same).symm
  unfold filePagesInitialize
  rw [ends_bind, ends_load]
  intro file₀ same
  cases Option.some.inj (same.symm.trans found)
  rw [ends_bind, ends_store]
  intro file₀ same
  cases Option.some.inj (same.symm.trans found)
  obtain ⟨file₁, named₁⟩ : ∃ file₁, file.write (.pagesN (pagesFor cfg file.size)) = file₁ := ⟨_, rfl⟩
  have pages₁ : file₁.pages = [] := by rw [← named₁, ← empty]; rfl
  have path₁ : file₁.abspath = file.abspath := by rw [← named₁]; rfl
  have consistent₁ : Consistent cfg (some f) [] (s.setFile f (some file₁)).store := by
    refine consistent.setFile mem found path₁ ?_ only
    rw [pages₁, empty]
  rw [named₁, ends_bind, ends_store]
  intro file' same
  cases Option.some.inj (same.symm.trans (Function.update_self ..))
  have consistent₂ : Consistent cfg (some f) []
      ((s.setFile f (some file₁)).setFile f (some (file₁.write .pagesAlloc))).store := by
    refine consistent₁.setFile mem (Function.update_self ..) rfl ?_ only
    rw [pages₁]
    exact .refl _
  refine wp_mono (ends_filePagesFill fuel (pagesFor cfg file.size) consistent₂ mem
    (Function.update_self ..) held) ?_
  rintro _ s' ⟨pages, length, grew⟩
  refine ⟨pages, length, grew.consistent, ?_, ?_⟩
  · exact ((Shrinks.setFile s f _).trans (Shrinks.setFile _ f _)).trans grew.shrinks
  · rw [grew.found, ← named₁]
    simp [MemFile.write]

theorem ends_filePagesExtra (fuel n : Nat) (consistent : Consistent cfg none extra s.store) :
    Ends strict cfg w (filePagesExtra fuel f n)
      (fun pages s' => pages.length = n ∧ Consistent cfg none (pages ++ extra) s'.store ∧
        Shrinks none s s') s := by
  induction n generalizing s extra with
  | zero => exact ⟨rfl, consistent, .refl none s⟩
  | succ n ih =>
      unfold filePagesExtra
      rw [ends_bind]
      refine wp_mono (ends_pageGet fuel consistent nofun) ?_
      rintro page s₁ ⟨consistent₁, shrinks₁⟩
      rw [ends_bind]
      refine wp_mono (ih consistent₁) ?_
      rintro pages s₂ ⟨length, consistent₂, shrinks₂⟩
      refine ⟨by rw [List.length_cons, length], ?_, shrinks₁.trans shrinks₂⟩
      exact consistent₂.exchange (List.perm_middle.symm.append_left _)

theorem ends_filePagesRenew (fuel : Nat) (dim : Int) (consistent : Consistent cfg none [] s.store)
    (mem : f ∈ s.store.recorded) (found : s.store.files f = some file)
    (held : s.owner (.file f) ≠ none) :
    Ends strict cfg w (filePagesRenew fuel f dim)
      (fun _ s' => ∃ pages, pages.length = dim.toNat - file.pagesN ∧
        Grew cfg f { file with pagesN := file.pagesN + pages.length, pages := file.pages ++ pages }
          s s') s := by
  have filled := (consistent.shaped f file mem found nofun).filled
  unfold filePagesRenew
  rw [ends_bind, ends_load]
  intro file₀ same
  cases Option.some.inj (same.symm.trans found)
  by_cases enough : dim ≤ file.pagesN
  · rw [if_pos enough]
    refine ⟨[], ?_, { consistent with shaped := fun g file mem found _ => ?_ }, .refl _ s, ?_⟩
    · rw [List.length_nil]
      omega
    · exact consistent.shaped g file mem found nofun
    · rw [List.append_nil]
      exact found
  · rw [if_neg enough, if_neg (by omega), ends_bind]
    refine wp_mono (ends_filePagesExtra fuel _ consistent) ?_
    rintro pages s₁ ⟨length, consistent₁, shrinks₁⟩
    have mem₁ := shrinks₁.held f mem held
    have found₁ := (shrinks₁.files f mem₁ nofun).trans found
    rw [ends_store]
    intro file₁ same
    cases Option.some.inj (same.symm.trans found₁)
    have total : dim.toNat = file.pagesN + pages.length := by omega
    have whole : file.pages.take file.pagesN = file.pages := by
      rw [← filled, List.take_length]
    refine ⟨pages, length, ?_, ?_, ?_⟩
    · refine consistent₁.setFile mem₁ found₁ rfl ?_ nofun
      rw [List.append_nil, List.nil_append]
      show (file.pages.take file.pagesN ++ pages).Perm (pages ++ file.pages)
      rw [whole]
      exact List.perm_append_comm
    · exact (shrinks₁.weaken _).trans (Shrinks.setFile s₁ f _)
    · rw [← total]
      show Function.update _ f _ f = _
      rw [Function.update_self, MemFile.write, whole]

end

end FileServer
