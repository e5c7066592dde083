import FileServer.Proof.Sequential.Requests

/-!
# `fileAppend`

An append is right exactly when the last page of the file is the page its next byte belongs to.
-/

namespace FileServer
open Program

/-- The first `size` bytes of the pages of `file`. -/
def Store.content (σ : Store) (file : MemFile) : List UInt8 :=
  (file.pages.flatMap σ.memPtr).take file.size

/-- No page index is out of range, and an answer 0 means that `data` is at the end of the file. -/
def AppendsCorrectly {W : Type} (cfg : Config) (s : Server W) (f : FileId) (file : MemFile)
    (path : Path) (pid : Pid) (data : List UInt8) : Prop :=
  ∀ (w : W) (fuel fd : Nat),
    (server W cfg).run w (fileAppend cfg fuel fd path pid data.length data) s ≠ .fault .pageIndex ∧
    ∀ s', (server W cfg).run w (fileAppend cfg fuel fd path pid data.length data) s = .ok ((), s') →
      s'.sent = s.sent ++ [(fd, .int 0), (fd, .int 0)] →
      ∃ file', f ∈ s'.store.recorded ∧ s'.store.files f = some file' ∧
        s'.store.content file' = s.store.content file ++ data ∧
        file'.size = file.size + data.length

/-- The pages an append of `n` bytes to `f` asks for never come: every attempt to get them waits or
faults, before the handler touches a page. -/
def Starved {W : Type} (cfg : Config) (s : Server W) (f : FileId) (file : MemFile) (n : Nat) :
    Prop :=
  ∀ (w : W) (fuel fd : Nat) (t : Server W),
    (server W cfg).run w (filePagesRenew fuel f (appendPages cfg file.pagesN file.size n))
      ((s.setOwner (.file f) (some w)).send fd (.int 0)) ≠ .ok ((), t)

section
variable {W : Type} {cfg : Config} {w : W} {s s' : Server W} {f : FileId}
  {file : MemFile} {path : Path} {pid : Pid} {n : Nat} {data : List UInt8}

theorem Idle.run_fileAppend_accepted (idle : Idle cfg s) (w : W) (fuel fd : Nat)
    (data : List UInt8)
    (searched : s.store.lookup cfg path = .ok (some f)) (found : s.store.files f = some file)
    (opened : clientOpenSearch file.clientsOpened pid = true)
    (fits : file.size + n ≤ cfg.serverMemorySize) :
    (server W cfg).run w (fileAppend cfg fuel fd path pid n data) s =
      (server W cfg).run w (appendAccepted cfg fuel fd f file n data)
        ((s.setOwner (.file f) (some w)).send fd (.int 0)) := by
  have limit := cfg.serverMemorySize_le
  have checked : sizeT (n + file.size) ≤ cfg.serverMemorySize := by
    rw [← Int.natCast_add, sizeT_of_small (by omega)]
    omega
  have accepted := appendError_eq_zero.mpr ⟨checked, opened⟩
  rw [idle.run_fileAppend_checked w fuel fd pid n data searched found, accepted,
    if_neg (not_not.mpr rfl)]

theorem Rewrote.content {k : Nat} {pages : List Nat}
    (rewrote : Rewrote cfg f file (file.grown n pages) k data s s') :
    s'.store.content (file.grown n pages) =
      (overwrite (file.pages.flatMap s.store.memPtr ++ pages.flatMap s.store.memPtr) k data).take
          (file.size + n) := by
  have image := rewrote.image
  rw [Store.content, image, ← List.flatMap_append]
  rfl

theorem append_position (roomy : file.pagesN = file.size / cfg.pageSize + 1) :
    (file.pagesN - 1) * cfg.pageSize + file.size % cfg.pageSize = file.size := by
  rw [roomy, Nat.add_sub_cancel, Nat.mul_comm]
  exact Nat.div_add_mod _ _

theorem appendPages_zero (cfg : Config) (k size : Nat) : appendPages cfg k size 0 = k := by
  simp [appendPages]

theorem append_content {pages : List Nat} (idle : Idle cfg s) (mem : f ∈ s.store.recorded)
    (found : s.store.files f = some file) (length : data.length = n)
    (total : file.pagesN + pages.length = appendPages cfg file.pagesN file.size n)
    (right : n = 0 ∨ file.pagesN = file.size / cfg.pageSize + 1)
    (rewrote : Rewrote cfg f file (file.grown n pages)
      ((file.pagesN - 1) * cfg.pageSize + file.size % cfg.pageSize) data s s') :
    s'.store.content (file.grown n pages) = s.store.content file ++ data := by
  have shaped := idle.consistent.shaped f file mem found nofun
  have image := length_flatMap_blocks file.pages idle.consistent.buffers
  rw [rewrote.content]
  rcases right with none | roomy
  · subst none
    have noPages : pages = [] := by
      rw [appendPages_zero] at total
      exact List.length_eq_zero_iff.mp (by omega)
    have noData : data = [] := List.length_eq_zero_iff.mp length
    simp [noPages, noData, Store.content]
  · have fits : file.size ≤ (file.pages.flatMap s.store.memPtr).length := by
      rw [image, shaped.filled, roomy, Nat.succ_mul, Nat.mul_comm]
      have division := Nat.div_add_mod file.size cfg.pageSize
      have inside := Nat.mod_lt file.size cfg.pageSize_pos
      omega
    rw [append_position roomy, take_overwrite _ _ (by rw [length])]
    · rw [List.take_append_of_le_length fits]
      rfl
    · rw [List.length_append]
      omega

/-- Without it, the first byte overwrites one of the old content. -/
theorem append_misplaced (shaped : file.Shaped cfg) (hasPages : 0 < file.pagesN)
    (wrong : file.pagesN ≠ file.size / cfg.pageSize + 1) :
    (file.pagesN - 1) * cfg.pageSize + file.size % cfg.pageSize < file.size ∧
      (file.pagesN - 1) * cfg.pageSize + file.size % cfg.pageSize <
        file.pages.length * cfg.pageSize := by
  have few : file.pagesN ≤ file.size / cfg.pageSize := by
    have bound := shaped.few
    omega
  have division := Nat.div_add_mod file.size cfg.pageSize
  have inside := Nat.mod_lt file.size cfg.pageSize_pos
  have whole := Nat.succ_mul (file.pagesN - 1) cfg.pageSize
  rw [Nat.succ_eq_add_one, Nat.sub_add_cancel hasPages] at whole
  have less : file.pagesN * cfg.pageSize ≤ cfg.pageSize * (file.size / cfg.pageSize) := by
    rw [Nat.mul_comm]
    exact Nat.mul_le_mul_left _ few
  rw [shaped.filled]
  omega

theorem append_shows {k : Nat} {c : UInt8} {pages : List Nat} (some : 0 < n)
    (inContent : k < file.size) (inPages : k < (file.pages.flatMap s.store.memPtr).length)
    (differs : (file.pages.flatMap s.store.memPtr)[k]? ≠ Option.some c)
    (rewrote : Rewrote cfg f file (file.grown n pages) k (List.replicate n c) s s') :
    s'.store.content (file.grown n pages) ≠ s.store.content file ++ List.replicate n c := by
  intro same
  have new : (s'.store.content (file.grown n pages))[k]? = Option.some c := by
    obtain ⟨m, rfl⟩ := Nat.exists_eq_add_one.mpr some
    rw [rewrote.content, List.getElem?_take_of_lt (by omega), List.replicate_succ]
    apply getElem?_overwrite
    rw [List.length_append]
    omega
  have old : (s.store.content file ++ List.replicate n c)[k]? =
      (file.pages.flatMap s.store.memPtr)[k]? := by
    have inside : k < (s.store.content file).length := by
      rw [Store.content, List.length_take]
      omega
    rw [List.getElem?_append_left inside, Store.content, List.getElem?_take_of_lt inContent]
  rw [same, old] at new
  exact differs new

theorem append_correct_iff (served : Served W cfg (fun _ _ => True) s)
    (searched : s.store.lookup cfg path = .ok (some f)) (found : s.store.files f = some file)
    (opened : clientOpenSearch file.clientsOpened pid = true)
    (fits : file.size + n ≤ cfg.serverMemorySize) :
    (∀ data, data.length = n → AppendsCorrectly cfg s f file path pid data) ↔
      n = 0 ∧ file.pagesN ≠ 0 ∨ file.pagesN = file.size / cfg.pageSize + 1 ∨
        Starved cfg s f file n := by
  have idle := served.idle
  have mem : f ∈ s.store.recorded := Store.hashTbSearch_mem (Store.lookup_eq_ok.mp searched)
  have shaped := idle.consistent.shaped f file mem found nofun
  have eq := fun (w : W) fuel fd data =>
    idle.run_fileAppend_accepted w fuel fd data searched found opened fits
  constructor
  · intro correct
    by_contra wrong
    obtain ⟨notEmpty, wrong⟩ := not_or.mp wrong
    obtain ⟨noRoom, fed⟩ := not_or.mp wrong
    obtain ⟨w, fuel, fd, t, renewed⟩ : ∃ (w : W) (fuel fd : Nat) (t : Server W),
        (server W cfg).run w (filePagesRenew fuel f (appendPages cfg file.pagesN file.size n))
          ((s.setOwner (.file f) (some w)).send fd (.int 0)) = .ok ((), t) := by
      unfold Starved at fed
      push Not at fed
      exact fed
    obtain ⟨consistent, held⟩ := idle.locked w fd (.int 0) f
    have grown : Ends True cfg w (filePagesRenew fuel f (appendPages cfg file.pagesN file.size n))
      _ _ := ends_filePagesRenew fuel _ consistent mem found held
    obtain ⟨pages, count, grew⟩ := grown.run renewed
    by_cases none : file.pagesN = 0
    · -- the last page of an empty file has index -1
      obtain ⟨inRange, -⟩ := correct (List.replicate n 0) List.length_replicate w fuel fd
      rw [List.length_replicate, eq, appendAccepted_eq fuel fd f _ shaped.few fits,
        Machine.run_bind_of renewed] at inRange
      exact inRange (run_appendRest_empty w shaped grew.found none fits)
    · have hasPages := Nat.pos_of_ne_zero none
      have some' : 0 < n := Nat.pos_of_ne_zero fun zero => notEmpty ⟨zero, none⟩
      obtain ⟨inContent, inPages⟩ := append_misplaced shaped hasPages noRoom
      rw [← length_flatMap_blocks file.pages idle.consistent.buffers] at inPages
      obtain ⟨c, differs⟩ : ∃ c : UInt8, (file.pages.flatMap s.store.memPtr)[
          (file.pagesN - 1) * cfg.pageSize + file.size % cfg.pageSize]? ≠ some c := by
        by_cases zero : (file.pages.flatMap s.store.memPtr)[
            (file.pagesN - 1) * cfg.pageSize + file.size % cfg.pageSize]? = some 0
        · exact ⟨1, by rw [zero]; decide⟩
        · exact ⟨0, zero⟩
      have length : (List.replicate n c).length = n := List.length_replicate
      rw [Int.toNat_natCast] at count
      obtain ⟨s', ends, sent, rewrote⟩ :=
        run_appendRest idle mem found fits length hasPages count grew
      have ended : (server W cfg).run w (fileAppend cfg fuel fd path pid n (List.replicate n c)) s =
          .ok ((), s') := by
        rw [eq, appendAccepted_eq fuel fd f _ shaped.few fits, Machine.run_bind_of renewed, ends]
      obtain ⟨-, answered⟩ := correct (List.replicate n c) length w fuel fd
      rw [length] at answered
      obtain ⟨file', -, found', content, -⟩ := answered s' ended sent
      cases Option.some.inj (found'.symm.trans rewrote.found)
      exact append_shows some' inContent inPages differs rewrote content
  · rintro right data length w fuel fd
    subst length
    rw [eq]
    obtain ⟨consistent, held⟩ := idle.locked w fd (.int 0) f
    have placed (right : data.length = 0 ∨ file.pagesN = file.size / cfg.pageSize + 1)
        (hasPages : 0 < file.pagesN) :
        (server W cfg).run w (appendAccepted cfg fuel fd f file data.length data)
            ((s.setOwner (.file f) (some w)).send fd (.int 0)) ≠ .fault .pageIndex ∧
          ∀ s', (server W cfg).run w (appendAccepted cfg fuel fd f file data.length data)
              ((s.setOwner (.file f) (some w)).send fd (.int 0)) = .ok ((), s') →
            s'.sent = s.sent ++ [(fd, .int 0), (fd, .int 0)] →
            ∃ file', f ∈ s'.store.recorded ∧ s'.store.files f = some file' ∧
              s'.store.content file' = s.store.content file ++ data ∧
              file'.size = file.size + data.length := by
      have ends : Ends True cfg w (appendAccepted cfg fuel fd f file data.length data) _
          ((s.setOwner (.file f) (some w)).send fd (.int 0)) :=
        ends_appendAccepted fuel fd idle mem found fits rfl fun _ => hasPages
      refine ⟨ends.inRange, fun s' ended _ => ?_⟩
      obtain ⟨-, -, pages, total, rewrote⟩ := ends.run ended
      exact ⟨_, rewrote.recorded, rewrote.found,
        append_content idle mem found rfl total right rewrote, rfl⟩
    rcases right with ⟨none, hasPages⟩ | roomy | starved
    · exact placed (.inl none) (Nat.pos_of_ne_zero hasPages)
    · exact placed (.inr roomy) (roomy ▸ Nat.succ_pos _)
    · have renew : Ends True cfg w
          (filePagesRenew fuel f (appendPages cfg file.pagesN file.size data.length)) _ _ :=
        ends_filePagesRenew fuel _ consistent mem found held
      have inRange := renew.inRange
      have never := starved w fuel fd
      rw [appendAccepted_eq fuel fd f data shaped.few fits, Machine.run_bind]
      cases outcome : (server W cfg).run w
          (filePagesRenew fuel f (appendPages cfg file.pagesN file.size data.length))
          ((s.setOwner (.file f) (some w)).send fd (.int 0)) with
      | ok result => exact absurd outcome (never result.2)
      | blocked => exact ⟨nofun, nofun⟩
      | spinning => exact ⟨nofun, nofun⟩
      | fault e =>
          rw [outcome] at inRange
          refine ⟨fun same => inRange ?_, nofun⟩
          exact same

end

/-! ## The two ways to go wrong -/

def fullPage : List Request :=
  [.fileInit [97], .fileOpen [97] 7, .fileWrite [97] 7 4 [1, 2, 3, 4]]

/-- One byte appended to a full page goes to the start of that page, and the first byte appended to a
new file goes to page -1. -/
theorem append_incorrect :
    (Served Unit smallConfig (fun _ _ => True) (reached smallConfig 5 fullPage) ∧
      (reached smallConfig 5 fullPage).store.lookup smallConfig [97] = .ok (some 0) ∧
      (reached smallConfig 5 fullPage).store.files 0 = some ⟨[3], 1, [97], 4, [7]⟩ ∧
      ¬AppendsCorrectly smallConfig (reached smallConfig 5 fullPage) 0 ⟨[3], 1, [97], 4, [7]⟩
        [97] 7 [9]) ∧
    Served Unit smallConfig (fun _ _ => True) (reached smallConfig 5 (fullPage.take 2)) ∧
      (reached smallConfig 5 (fullPage.take 2)).store.lookup smallConfig [97] = .ok (some 0) ∧
      (reached smallConfig 5 (fullPage.take 2)).store.files 0 = some ⟨[], 0, [97], 0, [7]⟩ ∧
      ¬AppendsCorrectly smallConfig (reached smallConfig 5 (fullPage.take 2)) 0
        ⟨[], 0, [97], 0, [7]⟩ [97] 7 [9] := by
  have wellFormed : ∀ r ∈ fullPage, r.WellFormed := by
    simp [fullPage, Request.WellFormed]
  refine ⟨⟨served_reached wellFormed (fun _ _ _ => trivial) (by decide +kernel),
    by decide +kernel, by decide +kernel, fun correct => ?_⟩,
    served_reached (fun r mem => wellFormed r (List.mem_of_mem_take mem)) (fun _ _ _ => trivial)
      (by decide +kernel), by decide +kernel, by decide +kernel, fun correct => ?_⟩
  · have ran : ((server Unit smallConfig).run () (fileAppend smallConfig 5 0 [97] 7 1 [9])
        (reached smallConfig 5 fullPage)).okAnd (fun (_, s) =>
          s.sent = (reached smallConfig 5 fullPage).sent ++ [(0, .int 0), (0, .int 0)] &&
          s.store.files 0 = some ⟨[3], 1, [97], 5, [7]⟩ && s.store.memPtr 3 = [9, 2, 3, 4]) = true := by
      decide +kernel
    obtain ⟨⟨_, s⟩, ended, checked⟩ := Outcome.okAnd_iff.mp ran
    simp only [Bool.and_eq_true, decide_eq_true_eq] at checked
    obtain ⟨⟨sent, file⟩, page⟩ := checked
    obtain ⟨file', -, found, content, -⟩ := (correct () 5 0).2 s ended sent
    cases Option.some.inj (found.symm.trans file)
    have old : (reached smallConfig 5 fullPage).store.content ⟨[3], 1, [97], 4, [7]⟩ =
        [1, 2, 3, 4] := by decide +kernel
    rw [old] at content
    simp [Store.content, page] at content
  · exact (correct () 5 0).1 (Outcome.isFault_iff.mp (by decide +kernel))

theorem append_correct_example : AppendsCorrectly smallConfig (reached smallConfig 5
    [.fileInit [97], .fileOpen [97] 7, .fileWrite [97] 7 6 [1, 2, 3, 4, 5, 6]]) 0
    ⟨[3, 2], 2, [97], 6, [7]⟩ [97] 7 [7, 8, 9, 10] :=
  (append_correct_iff (served_reached (by simp [Request.WellFormed]) (fun _ _ _ => trivial)
    (by decide +kernel)) (by decide +kernel) (by decide +kernel) (by decide +kernel)
    (by decide)).mpr (.inr (.inl rfl)) [7, 8, 9, 10] rfl

end FileServer
