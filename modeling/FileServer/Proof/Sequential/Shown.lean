import FileServer.Proof.Sequential.Naming
import FileServer.Proof.Sequential.ReadMany
import FileServer.Specification

/-!
# What a store shows

The files that the records of a store stand for, and what the changes of a store do to them.
-/

namespace FileServer
open Program

/-- What clients can know of a record. -/
def Store.shows (σ : Store) (file : MemFile) : StoredFile := ⟨σ.content file, file.clientsOpened⟩

/-- The files that the names of a store lead to. -/
def Store.shown (cfg : Config) (σ : Store) : Files := fun path =>
  (σ.leads cfg path).bind fun f => (σ.files f).map σ.shows

/-- Moreover, every file has as many pages as it takes. -/
structure Proper (cfg : Config) (σ : Store) : Prop extends UniqueNames cfg σ where
  counted : σ.Counted cfg

section
variable {W : Type} {cfg : Config} {s s' : Server W} {σ σ' : Store} {f g : FileId}
  {file : MemFile} {stored : StoredFile} {path : Path}

namespace Proper

theorem shown_iff (proper : Proper cfg σ) : σ.shown cfg path = some stored ↔
    ∃ f file, f ∈ σ.recorded ∧ σ.files f = some file ∧ file.abspath = path ∧ σ.shows file = stored := by
  unfold Store.shown
  constructor
  · intro here
    obtain ⟨f, leads, here⟩ := Option.bind_eq_some_iff.mp here
    obtain ⟨file, found, shows⟩ := Option.map_eq_some_iff.mp here
    obtain ⟨mem, named⟩ := proper.leads_iff.mp leads
    rw [Store.pathAt_of found] at named
    exact ⟨f, file, mem, found, Option.some.inj named, shows⟩
  · rintro ⟨f, file, mem, found, rfl, rfl⟩
    have leads : σ.leads cfg file.abspath = some f := proper.leads_iff.mpr ⟨mem, Store.pathAt_of found⟩
    simp [leads, found]

theorem shown_of (proper : Proper cfg σ) (mem : f ∈ σ.recorded) (found : σ.files f = some file) :
    σ.shown cfg file.abspath = some (σ.shows file) :=
  proper.shown_iff.mpr ⟨f, file, mem, found, rfl, rfl⟩

theorem searched (proper : Proper cfg σ) (searched : σ.lookup cfg path = .ok (some f))
    (found : σ.files f = some file) : f ∈ σ.recorded ∧ file.abspath = path ∧
      σ.shown cfg path = some (σ.shows file) := by
  obtain ⟨mem, named⟩ := proper.leads_iff.mp (proper.consistent.tidy.leads_iff.mpr searched)
  rw [Store.pathAt_of found] at named
  cases named
  exact ⟨mem, rfl, proper.shown_of mem found⟩

theorem missing (proper : Proper cfg σ) (missing : σ.lookup cfg path = .ok none) :
    σ.shown cfg path = none := by
  rw [proper.consistent.tidy.lookup path] at missing
  rw [Store.shown, Outcome.ok.inj missing]
  rfl

theorem absent (proper : Proper cfg σ) (absent : σ.shown cfg path = none) :
    σ.lookup cfg path = .ok none := by
  rw [proper.consistent.tidy.lookup path]
  cases leads : σ.leads cfg path with
  | none => rfl
  | some f =>
      obtain ⟨mem, named⟩ := proper.leads_iff.mp leads
      obtain ⟨file, found⟩ := proper.consistent.alive mem
      rw [Store.pathAt_of found] at named
      cases named
      cases absent.symm.trans (proper.shown_of mem found)

theorem shown_congr (proper : Proper cfg σ) (proper' : Proper cfg σ')
    (records : ∀ f file, file.abspath = path → (f ∈ σ'.recorded ∧ σ'.files f = some file ↔
      f ∈ σ.recorded ∧ σ.files f = some file))
    (content : ∀ f file, f ∈ σ.recorded → σ.files f = some file → file.abspath = path →
      σ'.content file = σ.content file) : σ'.shown cfg path = σ.shown cfg path := by
  apply Option.ext
  intro stored
  rw [proper.shown_iff, proper'.shown_iff]
  constructor
  · rintro ⟨f, file, mem', found', named, rfl⟩
    obtain ⟨mem, found⟩ := (records f file named).mp ⟨mem', found'⟩
    refine ⟨f, file, mem, found, named, ?_⟩
    rw [Store.shows, Store.shows, content f file mem found named]
  · rintro ⟨f, file, mem, found, named, rfl⟩
    obtain ⟨mem', found'⟩ := (records f file named).mpr ⟨mem, found⟩
    refine ⟨f, file, mem', found', named, ?_⟩
    rw [Store.shows, Store.shows, content f file mem found named]

theorem size_le (proper : Proper cfg σ) (mem : f ∈ σ.recorded) (found : σ.files f = some file) :
    file.size ≤ file.pagesN * cfg.pageSize := by
  rw [proper.counted f mem file found]
  by_cases empty : file.size = 0
  · rw [empty]
    exact Nat.zero_le _
  · have positive := pagesFor_pos cfg (Nat.pos_of_ne_zero empty)
    have exactly := pagesFor_last cfg (Nat.pos_of_ne_zero empty)
    have whole := Nat.succ_mul (pagesFor cfg file.size - 1) cfg.pageSize
    rw [Nat.succ_eq_add_one, Nat.sub_add_cancel positive] at whole
    have short := lastPageSize_le cfg file.size
    omega

theorem length_content (proper : Proper cfg σ) (mem : f ∈ σ.recorded) (found : σ.files f = some file) :
    (σ.content file).length = file.size := by
  have filled := (proper.consistent.shaped f file mem found nofun).filled
  rw [Store.content, List.length_take, length_flatMap_blocks file.pages proper.consistent.buffers, filled]
  exact Nat.min_eq_left (proper.size_le mem found)

theorem pagesN_eq_zero (proper : Proper cfg σ) (mem : f ∈ σ.recorded) (found : σ.files f = some file) :
    file.pagesN = 0 ↔ σ.content file = [] := by
  rw [← List.length_eq_zero_iff, proper.length_content mem found, proper.counted f mem file found]
  constructor
  · intro none
    by_contra some
    exact Nat.ne_of_gt (pagesFor_pos cfg (Nat.pos_of_ne_zero some)) none
  · intro empty
    rw [empty, pagesFor_zero]

theorem carries (proper : Proper cfg σ) (mem : f ∈ σ.recorded) (found : σ.files f = some file) :
    (σ.shows file).Carries (fileMessages cfg σ.memPtr file) := by
  refine ⟨fileChunks cfg σ.memPtr file, ?_, ?_⟩
  · exact fileChunks_content proper.consistent mem found (proper.counted f mem file found)
  · rw [Store.shows, proper.length_content mem found]
    rfl

end Proper

/-! ## What clients see of a change -/

theorem Proper.shown_setClients (proper : Proper cfg s.store) (proper' : Proper cfg s'.store)
    (mem : f ∈ s.store.recorded) (found : s.store.files f = some file) (clients : List Pid)
    (store : s'.store = (s.setFile f (some { file with clientsOpened := clients })).store) :
    s'.store.shown cfg = Function.update (s.store.shown cfg) file.abspath
      (some { s.store.shows file with clients := clients }) := by
  have recorded : s'.store.recorded = s.store.recorded := by
    rw [store]
    rfl
  have files : s'.store.files = Function.update s.store.files f
      (some { file with clientsOpened := clients }) := by
    rw [store]
    rfl
  have memPtr : s'.store.memPtr = s.store.memPtr := by
    rw [store]
    rfl
  have found' : s'.store.files f = some { file with clientsOpened := clients } := by
    rw [files, Function.update_self]
  have content (other : MemFile) : s'.store.content other = s.store.content other := by
    rw [Store.content, Store.content, memPtr]
  refine Function.eq_update_iff.mpr ⟨?_, fun path other => ?_⟩
  · have shown := proper'.shown_of (recorded ▸ mem) found'
    rw [Store.shows, content] at shown
    exact shown
  · refine proper.shown_congr proper' (fun g named same => ?_) fun g named _ _ _ => content named
    have apart (isIn : s.store.files g = some named ∨ s'.store.files g = some named) : g ≠ f := by
      rintro rfl
      rw [found, found'] at isIn
      rcases isIn with here | here
      · cases here
        exact other same.symm
      · cases here
        exact other same.symm
    rw [recorded]
    refine and_congr_right fun _ => ⟨fun here => ?_, fun here => ?_⟩
    · have ne := apart (.inr here)
      rwa [files, Function.update_of_ne ne] at here
    · rwa [files, Function.update_of_ne (apart (.inl here))]

theorem Proper.shown_removes (proper : Proper cfg s.store) (proper' : Proper cfg s'.store)
    (removes : Removes cfg s s' f file) :
    s'.store.shown cfg = Function.update (s.store.shown cfg) file.abspath none := by
  have perm := removes.recorded proper.consistent
  have gone := removes.victim_nmem proper.consistent
  have files : s'.store.files = Function.update s.store.files f none := by
    rw [removes.result]
    rfl
  have memPtr : s'.store.memPtr = s.store.memPtr := by
    rw [removes.result]
    rfl
  have mem := perm.mem_iff.mpr List.mem_cons_self
  have same {g : FileId} (mem' : g ∈ s'.store.recorded) : s'.store.files g = s.store.files g := by
    have other : g ≠ f := fun same => gone (same ▸ mem')
    rw [files, Function.update_of_ne other]
  refine Function.eq_update_iff.mpr ⟨?_, fun path other => ?_⟩
  · cases shown : s'.store.shown cfg file.abspath with
    | none => rfl
    | some stored =>
        obtain ⟨g, named, mem', found', samePath, -⟩ := proper'.shown_iff.mp shown
        have before := perm.mem_iff.mpr (List.mem_cons_of_mem f mem')
        rw [same mem'] at found'
        have here := Store.pathAt_of found'
        rw [samePath] at here
        have one := proper.one.one g before f mem _ here (Store.pathAt_of removes.alive)
        exact absurd (one ▸ mem') gone
  · refine proper.shown_congr proper' (fun g named samePath => ?_) fun g named _ _ _ => by
      rw [Store.content, Store.content, memPtr]
    constructor
    · rintro ⟨mem', found'⟩
      rw [same mem'] at found'
      exact ⟨perm.mem_iff.mpr (List.mem_cons_of_mem f mem'), found'⟩
    · rintro ⟨before, found⟩
      rcases List.mem_cons.mp (perm.mem_iff.mp before) with rfl | mem'
      · cases Option.some.inj (found.symm.trans removes.alive)
        exact absurd samePath.symm other
      · exact ⟨mem', (same mem').trans found⟩

theorem Proper.shown_create (proper : Proper cfg σ) (proper' : Proper cfg (σ.create cfg path)) :
    (σ.create cfg path).shown cfg = Function.update (σ.shown cfg) path (some ⟨[], []⟩) := by
  have perm := proper.consistent.recorded_create path
  have new : (σ.create cfg path).files σ.next = some ⟨[], 0, path, 0, []⟩ := Function.update_self ..
  have same {g : FileId} (mem : g ∈ σ.recorded) : (σ.create cfg path).files g = σ.files g :=
    Function.update_of_ne (proper.consistent.ne_next mem) ..
  refine Function.eq_update_iff.mpr ⟨?_, fun other apart => ?_⟩
  · exact proper'.shown_of (perm.mem_iff.mpr List.mem_cons_self) new
  · refine proper.shown_congr proper' (fun g named samePath => ?_) fun _ _ _ _ _ => rfl
    constructor
    · rintro ⟨mem', found'⟩
      rcases List.mem_cons.mp (perm.mem_iff.mp mem') with rfl | mem
      · cases Option.some.inj (found'.symm.trans new)
        exact absurd samePath.symm apart
      · exact ⟨mem, (same mem).symm.trans found'⟩
    · rintro ⟨mem, found⟩
      exact ⟨perm.mem_iff.mpr (List.mem_cons_of_mem _ mem), (same mem).trans found⟩

theorem Proper.shown_rewrote {file' : MemFile} {k : Nat} {data : List UInt8}
    (proper : Proper cfg s.store) (proper' : Proper cfg s'.store) (mem : f ∈ s.store.recorded)
    (found : s.store.files f = some file) (rewrote : Rewrote cfg f file file' k data s s')
    (named : file'.abspath = file.abspath) : ∃ files', (s.store.shown cfg).Loses files' file.abspath ∧
      s'.store.shown cfg = Function.update files' file.abspath (some (s'.store.shows file')) := by
  have here := proper'.shown_of rewrote.recorded rewrote.found
  rw [named] at here
  refine ⟨Function.update (s'.store.shown cfg) file.abspath (s.store.shown cfg file.abspath),
    ⟨Function.update_self .., fun path => ?_⟩, ?_⟩
  · by_cases same : path = file.abspath
    · subst same
      rw [Function.update_self]
      exact .inr rfl
    · rw [Function.update_of_ne same]
      cases shown : s'.store.shown cfg path with
      | none => exact .inl rfl
      | some stored =>
          right
          obtain ⟨g, other, mem', found', rfl, rfl⟩ := proper'.shown_iff.mp shown
          obtain ⟨before, kept⟩ := rewrote.others g mem'
          have apart : g ≠ f := by
            rintro rfl
            cases Option.some.inj (found'.symm.trans rewrote.found)
            exact same named
          obtain ⟨sameFile, samePages⟩ := kept apart
          rw [sameFile] at found'
          have content : s'.store.content other = s.store.content other := by
            rw [pagesOf_some found'] at samePages
            exact congrArg (List.take other.size) (List.flatMap_congr samePages)
          rw [proper.shown_of before found', Store.shows, Store.shows, content]
  · rw [Function.update_idem, ← here, Function.update_eq_self]

end

end FileServer
