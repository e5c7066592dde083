import FileServer.Proof.Sequential.Twins
import FileServer.Proof.Sequential.RoundTrip

/-!
# Two runs side by side

Servers that differ in the bytes of their pages only, and what `sendFile` would send of their files.
-/

namespace FileServer
open Program

/-- The append goes past the page in progress and ends with a page: it takes one page more, and
writes nothing on it. -/
def LeavesPage (cfg : Config) (size n : Nat) : Prop :=
  cfg.pageSize - size % cfg.pageSize < n ∧ (size + n) % cfg.pageSize = 0

structure Twin {W : Type} (s₁ s₂ : Server W) : Prop where
  owner : s₂.owner = s₁.owner
  store : s₂.store = { s₁.store with memPtr := s₂.store.memPtr }

/-- What `sendFile` would send of the files other than `g` is the same on both sides. -/
def Views (cfg : Config) (g : FileId) (σ₁ σ₂ : Store) : Prop :=
  ∀ f ∈ σ₁.recorded, f ≠ g → ∀ file, σ₁.files f = some file →
    fileChunks cfg σ₁.memPtr file = fileChunks cfg σ₂.memPtr file

/-- What the step from `s₁` and `s₂` to `s₁'` and `s₂'` keeps; what was sent is the same if `g` has
left the table. -/
structure Mirrors {W : Type} (cfg : Config) (g : FileId) (s₁ s₂ s₁' s₂' : Server W) : Prop where
  twin : Twin s₁' s₂'
  views : Views cfg g s₁'.store s₂'.store
  sent : g ∉ s₁.store.recorded → ∃ out, s₁'.sent = s₁.sent ++ out ∧ s₂'.sent = s₂.sent ++ out

section
variable {W : Type} {cfg : Config} {w : W} {g f : FileId} {s₁ s₂ s₁' s₂' : Server W}
  {file file' : MemFile} {mem₁ mem₂ : Nat → List UInt8} {data data₁ data₂ : List UInt8} {k n : Nat}

namespace Twin

theorem refl (s : Server W) : Twin s s := ⟨rfl, rfl⟩

theorem files (twin : Twin s₁ s₂) : s₂.store.files = s₁.store.files := by rw [twin.store]
theorem recorded (twin : Twin s₁ s₂) : s₂.store.recorded = s₁.store.recorded := by
  rw [twin.store]
  rfl

theorem lookup (twin : Twin s₁ s₂) (path : Path) :
    s₂.store.lookup cfg path = s₁.store.lookup cfg path := by
  refine Store.lookup_paths ?_ (fun f => ?_) path
  · rw [twin.store]
  · rw [twin.files]

theorem faces (twin : Twin s₁ s₂) :
    Faces s₁.store.memPtr s₂.store.memPtr s₁.sent s₂.sent s₁ s₂ := by
  refine ⟨⟨s₁.store, s₁.owner, []⟩, ?_, ?_⟩
  · show s₁ = ⟨s₁.store, s₁.owner, s₁.sent ++ []⟩
    rw [List.append_nil]
  · show s₂ = ⟨{ s₁.store with memPtr := s₂.store.memPtr }, s₁.owner, s₂.sent ++ []⟩
    rw [List.append_nil, ← twin.store, ← twin.owner]

theorem alike (twin : Twin s₁ s₂) (idle₁ : Idle cfg s₁) (idle₂ : Idle cfg s₂) :
    Alike s₁.sent s₂.sent s₁ s₂ :=
  ⟨_, _, fun page => (idle₁.consistent.buffers page).trans (idle₂.consistent.buffers page).symm,
    twin.faces⟩

end Twin

theorem Faces.twin {before₁ before₂ : List (Nat × Msg)}
    (faces : Faces mem₁ mem₂ before₁ before₂ s₁ s₂) : Twin s₁ s₂ := by
  obtain ⟨t, rfl, rfl⟩ := faces
  exact ⟨rfl, rfl⟩

theorem Faces.sent {before₁ before₂ : List (Nat × Msg)}
    (faces : Faces mem₁ mem₂ before₁ before₂ s₁ s₂) :
    ∃ out, s₁.sent = before₁ ++ out ∧ s₂.sent = before₂ ++ out := by
  obtain ⟨t, rfl, rfl⟩ := faces
  exact ⟨t.sent, rfl, rfl⟩

/-! ## What is to be seen of a file -/

def visible (cfg : Config) (file : MemFile) : Nat :=
  (file.pagesN - 1) * cfg.pageSize + lastPageSize cfg file.size

theorem fileChunks_lengths (sized₁ : ∀ page, (mem₁ page).length = cfg.pageSize)
    (sized₂ : ∀ page, (mem₂ page).length = cfg.pageSize) (file : MemFile) :
    (fileChunks cfg mem₁ file).map List.length = (fileChunks cfg mem₂ file).map List.length := by
  by_cases empty : file.size = 0
  · simp [fileChunks, empty]
  · simp [fileChunks, empty, Function.comp_def, sized₁, sized₂]

theorem fileChunks_eq_iff (sized₁ : ∀ page, (mem₁ page).length = cfg.pageSize)
    (sized₂ : ∀ page, (mem₂ page).length = cfg.pageSize)
    (filled : file.pages.length = file.pagesN) (some : 0 < file.pagesN) (nonempty : file.size ≠ 0) :
    fileChunks cfg mem₁ file = fileChunks cfg mem₂ file ↔
      (file.pages.flatMap mem₁).take (visible cfg file) =
        (file.pages.flatMap mem₂).take (visible cfg file) := by
  rw [List.eq_iff_flatten_eq, and_iff_left (fileChunks_lengths sized₁ sized₂ file), flatten_fileChunks sized₁ filled some nonempty,
    flatten_fileChunks sized₂ filled some nonempty]
  rfl

theorem visible_append (some : 0 < n) (hasPages : 0 < file.pagesN)
    (writes : ¬LeavesPage cfg file.size n) (pages : List Nat)
    (total : file.pagesN + pages.length = appendPages cfg file.pagesN file.size n) :
    visible cfg (file.grown n pages) =
      (file.pagesN - 1) * cfg.pageSize + file.size % cfg.pageSize + n := by
  show (file.pagesN + pages.length - 1) * cfg.pageSize + lastPageSize cfg (file.size + n) = _
  have positive := cfg.pageSize_pos
  have inside := Nat.mod_lt file.size positive
  have division := Nat.div_add_mod file.size cfg.pageSize
  have whole := Nat.succ_mul (file.pagesN - 1) cfg.pageSize
  rw [Nat.succ_eq_add_one, Nat.sub_add_cancel hasPages] at whole
  rw [total, appendPages]
  by_cases spills : cfg.pageSize - file.size % cfg.pageSize < n
  · obtain ⟨beyond, rest⟩ : ∃ beyond, n - (cfg.pageSize - file.size % cfg.pageSize) = beyond := ⟨_, rfl⟩
    have division' := Nat.div_add_mod beyond cfg.pageSize
    have remainder : (file.size + n) % cfg.pageSize = beyond % cfg.pageSize := by
      have sum : file.size + n = beyond + cfg.pageSize * (file.size / cfg.pageSize + 1) := by
        rw [Nat.mul_add, Nat.mul_one]
        omega
      rw [sum, Nat.add_mul_mod_self_left]
    have partly : beyond % cfg.pageSize ≠ 0 := fun ends => writes ⟨spills, remainder.trans ends⟩
    rw [if_pos spills, rest, Nat.add_sub_cancel, lastPageSize, remainder, if_neg partly, Nat.add_mul,
      Nat.mul_comm (beyond / cfg.pageSize)]
    omega
  · have remainder : (file.size + n) % cfg.pageSize =
        (file.size % cfg.pageSize + n) % cfg.pageSize := (Nat.mod_add_mod _ _ _).symm
    have last : lastPageSize cfg (file.size + n) = file.size % cfg.pageSize + n := by
      unfold lastPageSize
      rw [remainder]
      by_cases full : file.size % cfg.pageSize + n = cfg.pageSize
      · rw [full, Nat.mod_self, if_pos rfl]
      · rw [Nat.mod_eq_of_lt (by omega), if_neg (by omega)]
    rw [if_neg spills, last, Nat.add_assoc]

theorem fileChunks_grown_zero (mem : Nat → List UInt8) :
    fileChunks cfg mem (file.grown 0 []) = fileChunks cfg mem file := by
  simp [fileChunks, MemFile.grown]

theorem take_position (sized₁ : ∀ page, (mem₁ page).length = cfg.pageSize)
    (sized₂ : ∀ page, (mem₂ page).length = cfg.pageSize) (shaped : file.Shaped cfg)
    (hasPages : 0 < file.pagesN) (same : fileChunks cfg mem₁ file = fileChunks cfg mem₂ file) :
    (file.pages.flatMap mem₁).take ((file.pagesN - 1) * cfg.pageSize + file.size % cfg.pageSize) =
      (file.pages.flatMap mem₂).take
        ((file.pagesN - 1) * cfg.pageSize + file.size % cfg.pageSize) := by
  by_cases empty : file.size = 0
  · have one : file.pagesN - 1 = 0 := by
      have geometry := shaped.geometry
      rw [empty, Nat.zero_div] at geometry
      omega
    rw [one, empty, Nat.zero_mul, Nat.zero_mod, Nat.zero_add, List.take_zero, List.take_zero]
  · have within : (file.pagesN - 1) * cfg.pageSize + file.size % cfg.pageSize ≤
        visible cfg file := by
      have inside := Nat.mod_lt file.size cfg.pageSize_pos
      unfold visible lastPageSize
      by_cases whole : file.size % cfg.pageSize = 0
      · rw [if_pos whole]
        omega
      · simp only [if_neg whole, Nat.le_refl]
    have seen := (fileChunks_eq_iff sized₁ sized₂ shaped.filled hasPages empty).mp same
    rw [← Nat.min_eq_left within, ← List.take_take, ← List.take_take, seen]

theorem Rewrote.chunks_nothing (idle : Idle cfg s₁) (shaped : file.Shaped cfg)
    (hasPages : 0 < file.pagesN) (rewrote : Rewrote cfg f file (file.grown 0 []) k [] s₁ s₁') :
    fileChunks cfg s₁'.store.memPtr (file.grown 0 []) = fileChunks cfg s₁.store.memPtr file := by
  have image := rewrote.image
  rw [overwrite_nil] at image
  change (file.pages ++ []).flatMap _ = (file.pages ++ []).flatMap _ at image
  rw [List.append_nil] at image
  rw [fileChunks_grown_zero]
  by_cases empty : file.size = 0
  · simp [fileChunks, empty]
  · rw [fileChunks_eq_iff rewrote.idle.consistent.buffers idle.consistent.buffers shaped.filled
      hasPages empty, image]

theorem Rewrote.image_append {pages : List Nat} (idle : Idle cfg s₁) (shaped : file.Shaped cfg)
    (hasPages : 0 < file.pagesN) (length : data.length = n)
    (rewrote : Rewrote cfg f file (file.grown n pages)
      ((file.pagesN - 1) * cfg.pageSize + file.size % cfg.pageSize) data s₁ s₁') :
    ((file.grown n pages).pages.flatMap s₁'.store.memPtr).take
        ((file.pagesN - 1) * cfg.pageSize + file.size % cfg.pageSize + n) =
      (file.pages.flatMap s₁.store.memPtr).take
        ((file.pagesN - 1) * cfg.pageSize + file.size % cfg.pageSize) ++ data := by
  have inside := Nat.mod_lt file.size cfg.pageSize_pos
  have whole := Nat.succ_mul (file.pagesN - 1) cfg.pageSize
  rw [Nat.succ_eq_add_one, Nat.sub_add_cancel hasPages] at whole
  have start : (file.pagesN - 1) * cfg.pageSize + file.size % cfg.pageSize ≤
      (file.pages.flatMap s₁.store.memPtr).length := by
    rw [length_flatMap_blocks file.pages idle.consistent.buffers, shaped.filled]
    omega
  have split : (file.grown n pages).pages.flatMap s₁.store.memPtr =
      file.pages.flatMap s₁.store.memPtr ++ pages.flatMap s₁.store.memPtr := List.flatMap_append
  rw [rewrote.image, split, take_overwrite ?_ _ (by rw [length]), List.take_append_of_le_length start]
  rw [List.length_append]
  exact Nat.le_trans start (Nat.le_add_right _ _)

theorem chunks_append {pages : List Nat} (idle₁ : Idle cfg s₁) (idle₂ : Idle cfg s₂)
    (shaped : file.Shaped cfg) (hasPages : 0 < file.pagesN) (length : data.length = n)
    (total : file.pagesN + pages.length = appendPages cfg file.pagesN file.size n)
    (writes : ¬LeavesPage cfg file.size n)
    (rewrote₁ : Rewrote cfg f file (file.grown n pages)
      ((file.pagesN - 1) * cfg.pageSize + file.size % cfg.pageSize) data s₁ s₁')
    (rewrote₂ : Rewrote cfg f file (file.grown n pages)
      ((file.pagesN - 1) * cfg.pageSize + file.size % cfg.pageSize) data s₂ s₂')
    (same : fileChunks cfg s₁.store.memPtr file = fileChunks cfg s₂.store.memPtr file) :
    fileChunks cfg s₁'.store.memPtr (file.grown n pages) =
      fileChunks cfg s₂'.store.memPtr (file.grown n pages) := by
  by_cases none : n = 0
  · subst none
    have noPages : pages = [] := by
      rw [appendPages_zero] at total
      exact List.length_eq_zero_iff.mp (by omega)
    have noData : data = [] := List.length_eq_zero_iff.mp length
    subst noPages noData
    rw [rewrote₁.chunks_nothing idle₁ shaped hasPages, rewrote₂.chunks_nothing idle₂ shaped hasPages,
      same]
  · have filled : (file.pages ++ pages).length = file.pagesN + pages.length := by
      rw [List.length_append, shaped.filled]
    have nonempty : file.size + n ≠ 0 := by omega
    rw [fileChunks_eq_iff rewrote₁.idle.consistent.buffers rewrote₂.idle.consistent.buffers filled
      (Nat.lt_of_lt_of_le hasPages (Nat.le_add_right _ _)) nonempty,
      visible_append (Nat.pos_of_ne_zero none) hasPages writes pages total,
      rewrote₁.image_append idle₁ shaped hasPages length,
      rewrote₂.image_append idle₂ shaped hasPages length,
      take_position idle₁.consistent.buffers idle₂.consistent.buffers shaped hasPages same]

theorem chunks_write {pages : List Nat} (some : 0 < data.length)
    (count : pages.length = pagesFor cfg data.length)
    (rewrote₁ : Rewrote cfg f file
      { file with size := data.length, pagesN := pagesFor cfg data.length, pages := pages }
      0 data s₁ s₁')
    (rewrote₂ : Rewrote cfg f file
      { file with size := data.length, pagesN := pagesFor cfg data.length, pages := pages }
      0 data s₂ s₂') :
    fileChunks cfg s₁'.store.memPtr
        { file with size := data.length, pagesN := pagesFor cfg data.length, pages := pages } =
      fileChunks cfg s₂'.store.memPtr
        { file with size := data.length, pagesN := pagesFor cfg data.length, pages := pages } := by
  have lengths := fileChunks_lengths rewrote₁.idle.consistent.buffers
    rewrote₂.idle.consistent.buffers
  rw [List.eq_iff_flatten_eq, and_iff_left (lengths _), rewrote₁.written some count,
    rewrote₂.written some count]

/-! ## Writes and appends -/

theorem Views.rewrote {file' : MemFile} (views : Views cfg g s₁.store s₂.store) (twin : Twin s₁ s₂)
    (rewrote₁ : Rewrote cfg f file file' k data₁ s₁ s₁')
    (rewrote₂ : Rewrote cfg f file file' k data₂ s₂ s₂') (twin' : Twin s₁' s₂')
    (same : f ≠ g → fileChunks cfg s₁'.store.memPtr file' = fileChunks cfg s₂'.store.memPtr file') :
    Views cfg g s₁'.store s₂'.store := by
  intro h mem other file₁ found₁
  by_cases here : h = f
  · subst here
    cases Option.some.inj (found₁.symm.trans rewrote₁.found)
    exact same other
  · obtain ⟨mem₁, kept₁⟩ := rewrote₁.others h mem
    obtain ⟨mem₂, kept₂⟩ := rewrote₂.others h (by rwa [twin'.recorded])
    obtain ⟨files₁, pages₁⟩ := kept₁ here
    obtain ⟨files₂, pages₂⟩ := kept₂ here
    have found : s₁.store.files h = some file₁ := files₁.symm.trans found₁
    have found₂ : s₂.store.files h = some file₁ := by rwa [twin.files]
    rw [pagesOf_some found] at pages₁
    rw [pagesOf_some found₂] at pages₂
    rw [fileChunks_congr pages₁, fileChunks_congr pages₂]
    exact views h mem₁ other file₁ found

theorem Idle.write_ended {path : Path} {pid : Pid} {fuel fd : Nat} (idle : Idle cfg s₁)
    (length : data.length = n)
    (searched : s₁.store.lookup cfg path = .ok (some f)) (found : s₁.store.files f = some file)
    (accepted : writeError cfg file pid n = 0)
    (completed : (server W cfg).run w (fileWrite cfg fuel fd path pid n data) s₁ = .ok ((), s₁')) :
    0 < n ∧ ∃ pages, pages.length = pagesFor cfg n ∧ Rewrote cfg f file
      { file with size := n, pagesN := pagesFor cfg n, pages := pages } 0 data s₁ s₁' := by
  have mem : f ∈ s₁.store.recorded := Store.hashTbSearch_mem (Store.lookup_eq_ok.mp searched)
  obtain ⟨fits, empty, -⟩ := writeError_eq_zero.mp accepted
  rw [idle.run_fileWrite_checked w fuel fd pid n data searched found,
    if_neg (not_not.mpr accepted)] at completed
  have ends : Ends False cfg w (writeAccepted cfg fuel fd f n data) _
      ((s₁.setOwner (.file f) (some w)).send fd (.int (writeError cfg file pid n))) :=
    ends_writeAccepted fuel fd idle mem found empty fits length nofun
  obtain ⟨nonempty, -, pages, count, rewrote⟩ := ends.run completed
  exact ⟨nonempty, pages, count, rewrote⟩

theorem Idle.append_ended {path : Path} {pid : Pid} {fuel fd : Nat} (idle : Idle cfg s₁)
    (length : data.length = n) (small : n < 2 ^ 64)
    (searched : s₁.store.lookup cfg path = .ok (some f)) (found : s₁.store.files f = some file)
    (accepted : appendError cfg file pid n = 0)
    (completed : (server W cfg).run w (fileAppend cfg fuel fd path pid n data) s₁ = .ok ((), s₁')) :
    0 < file.pagesN ∧ ∃ pages,
      file.pagesN + pages.length = appendPages cfg file.pagesN file.size n ∧
      Rewrote cfg f file (file.grown n pages)
        ((file.pagesN - 1) * cfg.pageSize + file.size % cfg.pageSize) data s₁ s₁' := by
  have mem : f ∈ s₁.store.recorded := Store.hashTbSearch_mem (Store.lookup_eq_ok.mp searched)
  have shaped := idle.consistent.shaped f file mem found nofun
  obtain ⟨checked, -⟩ := appendError_eq_zero.mp accepted
  rw [idle.run_fileAppend_checked w fuel fd pid n data searched found,
    if_neg (not_not.mpr accepted)] at completed
  rcases appendSize_fits shaped small checked with fits | large
  · have ends : Ends False cfg w (appendAccepted cfg fuel fd f file n data) _
        ((s₁.setOwner (.file f) (some w)).send fd (.int (appendError cfg file pid n))) :=
      ends_appendAccepted fuel fd idle mem found fits length nofun
    obtain ⟨hasPages, -, pages, total, rewrote⟩ := ends.run completed
    exact ⟨hasPages, pages, total, rewrote⟩
  · have never : Ends False cfg w (appendAccepted cfg fuel fd f file n data) (fun _ _ => False)
        ((s₁.setOwner (.file f) (some w)).send fd (.int (appendError cfg file pid n))) :=
      ends_appendAccepted_large fuel fd n data large
    exact (never.run completed).elim

theorem mirrors_write {path : Path} {pid : Pid} {fuel fd : Nat} (idle₁ : Idle cfg s₁)
    (idle₂ : Idle cfg s₂) (twin : Twin s₁ s₂) (views : Views cfg g s₁.store s₂.store)
    (length₁ : data₁.length = n) (length₂ : data₂.length = n)
    (same : ∀ f, s₁.store.lookup cfg path = .ok (some f) → f ≠ g → data₁ = data₂)
    (completed₁ : (server W cfg).run w (fileWrite cfg fuel fd path pid n data₁) s₁ = .ok ((), s₁'))
    (completed₂ : (server W cfg).run w (fileWrite cfg fuel fd path pid n data₂) s₂ = .ok ((), s₂')) :
    Mirrors cfg g s₁ s₂ s₁' s₂' := by
  obtain ⟨_, _, completed, -, mem₁, mem₂, -, faces⟩ :=
    lockstep_fileWrite fuel fd path pid n (length₁.trans length₂.symm) s₁ s₂
      (twin.alike idle₁ idle₂) () s₁' completed₁
  cases completed.symm.trans completed₂
  have twin' := faces.twin
  refine ⟨twin', ?_, fun _ => faces.sent⟩
  rcases idle₁.lookup path with missing | ⟨f, file, searched, -, found⟩
  · have faults := idle₁.run_fileWrite_missing w fuel fd pid n data₁ missing
    cases faults.symm.trans completed₁
  have searched₂ : s₂.store.lookup cfg path = .ok (some f) := by rwa [twin.lookup]
  have found₂ : s₂.store.files f = some file := by rwa [twin.files]
  by_cases refused : writeError cfg file pid n ≠ 0
  · have answer₁ := idle₁.run_fileWrite_refused w fuel fd pid n data₁ searched found refused
    have answer₂ := idle₂.run_fileWrite_refused w fuel fd pid n data₂ searched₂ found₂ refused
    cases answer₁.symm.trans completed₁
    cases answer₂.symm.trans completed₂
    exact views
  · have accepted := not_not.mp refused
    obtain ⟨nonempty, pages, count, rewrote₁⟩ :=
      idle₁.write_ended length₁ searched found accepted completed₁
    obtain ⟨-, pages₂, -, rewrote₂⟩ :=
      idle₂.write_ended length₂ searched₂ found₂ accepted completed₂
    have file' := rewrote₁.found
    rw [← twin'.files, rewrote₂.found] at file'
    obtain rfl : pages₂ = pages := by
      injection Option.some.inj file'
    refine views.rewrote twin rewrote₁ rewrote₂ twin' fun other => ?_
    cases same f searched other
    subst length₁
    exact chunks_write nonempty count rewrote₁ rewrote₂

theorem mirrors_append {path : Path} {pid : Pid} {fuel fd : Nat} (idle₁ : Idle cfg s₁)
    (idle₂ : Idle cfg s₂) (twin : Twin s₁ s₂) (views : Views cfg g s₁.store s₂.store)
    (length₁ : data₁.length = n) (length₂ : data₂.length = n) (small : n < 2 ^ 64)
    (same : ∀ f, s₁.store.lookup cfg path = .ok (some f) → f ≠ g → data₁ = data₂)
    (writes : ∀ f file, s₁.store.lookup cfg path = .ok (some f) → s₁.store.files f = some file →
      f ≠ g → appendError cfg file pid n = 0 → ¬LeavesPage cfg file.size n)
    (completed₁ : (server W cfg).run w (fileAppend cfg fuel fd path pid n data₁) s₁ = .ok ((), s₁'))
    (completed₂ : (server W cfg).run w (fileAppend cfg fuel fd path pid n data₂) s₂ = .ok ((), s₂')) :
    Mirrors cfg g s₁ s₂ s₁' s₂' := by
  obtain ⟨_, _, completed, -, mem₁, mem₂, -, faces⟩ :=
    lockstep_fileAppend fuel fd path pid n (length₁.trans length₂.symm) s₁ s₂
      (twin.alike idle₁ idle₂) () s₁' completed₁
  cases completed.symm.trans completed₂
  have twin' := faces.twin
  refine ⟨twin', ?_, fun _ => faces.sent⟩
  rcases idle₁.lookup path with missing | ⟨f, file, searched, mem, found⟩
  · have faults := idle₁.run_fileAppend_missing w fuel fd pid n data₁ missing
    cases faults.symm.trans completed₁
  have searched₂ : s₂.store.lookup cfg path = .ok (some f) := by rwa [twin.lookup]
  have found₂ : s₂.store.files f = some file := by rwa [twin.files]
  by_cases refused : appendError cfg file pid n ≠ 0
  · have answer₁ := idle₁.run_fileAppend_refused w fuel fd pid n data₁ searched found refused
    have answer₂ := idle₂.run_fileAppend_refused w fuel fd pid n data₂ searched₂ found₂ refused
    cases answer₁.symm.trans completed₁
    cases answer₂.symm.trans completed₂
    exact views
  · have accepted := not_not.mp refused
    obtain ⟨hasPages, pages, total, rewrote₁⟩ :=
      idle₁.append_ended length₁ small searched found accepted completed₁
    obtain ⟨-, pages₂, -, rewrote₂⟩ :=
      idle₂.append_ended length₂ small searched₂ found₂ accepted completed₂
    have file' := rewrote₁.found
    rw [← twin'.files, rewrote₂.found] at file'
    obtain rfl : pages₂ = pages := by
      injection Option.some.inj file' with joined
      exact List.append_cancel_left joined
    refine views.rewrote twin rewrote₁ rewrote₂ twin' fun other => ?_
    cases same f searched other
    exact chunks_append idle₁ idle₂ (idle₁.consistent.shaped f file mem found nofun) hasPages length₁
      total (writes f file searched found other accepted) rewrote₁ rewrote₂
      (views f mem other file found)

end

end FileServer
