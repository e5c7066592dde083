import FileServer.Proof.Sequential.Paging

/-!
# Reading back what was written
-/

namespace FileServer
open Program

section
variable {W : Type} {cfg : Config} {w : W} {s s' : Server W} {f g : FileId} {file : MemFile}
  {path : Path} {pid : Pid} {fuel fd : Nat} {data : List UInt8}

theorem fileChunks_congr {mem mem' : Nat → List UInt8}
    (same : ∀ page ∈ file.pages, mem' page = mem page) :
    fileChunks cfg mem' file = fileChunks cfg mem file := by
  have front : (file.pages.take (file.pagesN - 1)).map mem' =
      (file.pages.take (file.pagesN - 1)).map mem :=
    List.map_congr_left fun page isPage => same page (List.mem_of_mem_take isPage)
  have last : (file.pages.drop (file.pagesN - 1)).map (fun page =>
      (mem' page).take (lastPageSize cfg file.size)) =
        (file.pages.drop (file.pagesN - 1)).map fun page =>
          (mem page).take (lastPageSize cfg file.size) := by
    apply List.map_congr_left
    intro page isPage
    rw [same page (List.mem_of_mem_drop isPage)]
  unfold fileChunks
  rw [front, last]

theorem Idle.fileWrite_rewrote (idle : Idle cfg s)
    (searched : s.store.lookup cfg path = .ok (some f)) (found : s.store.files f = some file)
    (completed : (server W cfg).run w (fileWrite cfg fuel fd path pid data.length data) s =
      .ok ((), s'))
    (answered : s'.sent = s.sent ++ [(fd, .int 0), (fd, .int 0)]) :
    ∃ pages, pages.length = pagesFor cfg data.length ∧ Rewrote cfg f file
      { file with size := data.length, pagesN := pagesFor cfg data.length, pages := pages }
      0 data s s' := by
  have mem : f ∈ s.store.recorded := Store.hashTbSearch_mem (Store.lookup_eq_ok.mp searched)
  by_cases refused : writeError cfg file pid data.length ≠ 0
  · -- a refusal is one message only
    rw [idle.run_fileWrite_refused w fuel fd pid data.length data searched found refused] at completed
    cases completed
    have count := congrArg List.length answered
    simp [Server.send] at count
  · obtain ⟨fits, empty, -⟩ := writeError_eq_zero.mp (not_not.mp refused)
    rw [idle.run_fileWrite_checked w fuel fd pid data.length data searched found,
      if_neg refused] at completed
    have accepted : Ends False cfg w (writeAccepted cfg fuel fd f data.length data) _
        ((s.setOwner (.file f) (some w)).send fd (.int (writeError cfg file pid data.length))) :=
      ends_writeAccepted fuel fd idle mem found empty fits rfl (fun wrong => wrong.elim)
    obtain ⟨-, -, pages, count, rewrote⟩ := accepted.run completed
    exact ⟨pages, count, rewrote⟩

theorem Rewrote.written {pages : List Nat} (some : 0 < data.length)
    (count : pages.length = pagesFor cfg data.length)
    (rewrote : Rewrote cfg f file
      { file with size := data.length, pagesN := pagesFor cfg data.length, pages := pages }
      0 data s s') :
    (fileChunks cfg s'.store.memPtr { file with
      size := data.length, pagesN := pagesFor cfg data.length, pages := pages }).flatten = data := by
  have image := rewrote.image
  rw [flatten_fileChunks rewrote.idle.consistent.buffers count (pagesFor_pos cfg some)
    (Nat.ne_of_gt some), image]
  show List.take ((pagesFor cfg data.length - 1) * cfg.pageSize + lastPageSize cfg data.length) _ = _
  rw [pagesFor_last cfg some, take_overwrite (Nat.zero_le _) _ (Nat.zero_add _).symm, List.take_zero,
    List.nil_append]

theorem write_read (served : Served W cfg (fun _ _ => True) s)
    (searched : s.store.lookup cfg path = .ok (some f))
    (nonempty : 1 ≤ data.length)
    (completed : (server W cfg).run w (fileWrite cfg fuel fd path pid data.length data) s =
      .ok ((), s'))
    (answered : s'.sent = s.sent ++ [(fd, .int 0), (fd, .int 0)]) :
    (∃ chunks : List (List UInt8), chunks.flatten = data ∧
      ∀ (w' : W) (fd' : Nat), (server W cfg).run w' (sendFile cfg fd' f) s' =
        .ok ((), s'.sendAll fd' (.sizeT data.length :: chunks.map .bytes))) ∧
    ∀ g ∈ s.store.recorded, g ≠ f → g ∉ s'.store.recorded ∨
      ∃ (old new : MemFile) (msgs : List Msg), s.store.files g = some old ∧
        s'.store.files g = some new ∧ new.size = old.size ∧
        ∀ (w' : W) (fd' : Nat),
          (server W cfg).run w' (sendFile cfg fd' g) s = .ok ((), s.sendAll fd' msgs) ∧
          (server W cfg).run w' (sendFile cfg fd' g) s' = .ok ((), s'.sendAll fd' msgs) := by
  have idle := served.idle
  obtain ⟨file, found, -⟩ := Store.hashTbSearch_alive (Store.lookup_eq_ok.mp searched)
  obtain ⟨pages, count, rewrote⟩ :=
    idle.fileWrite_rewrote searched found completed answered
  refine ⟨⟨_, rewrote.written nonempty count, fun w' fd' => ?_⟩, fun g mem other => ?_⟩
  · exact rewrote.idle.run_sendFile w' fd' rewrote.recorded rewrote.found
  · by_cases mem' : g ∈ s'.store.recorded
    · right
      obtain ⟨old, here⟩ := idle.consistent.alive mem
      obtain ⟨kept, pagesKept⟩ := (rewrote.others g mem').2 other
      have here' : s'.store.files g = some old := kept.trans here
      have same : fileChunks cfg s'.store.memPtr old = fileChunks cfg s.store.memPtr old :=
        fileChunks_congr fun page isPage => pagesKept page (by rwa [pagesOf_some here])
      refine ⟨old, old, fileMessages cfg s.store.memPtr old, here, here', rfl, fun w' fd' => ?_⟩
      refine ⟨idle.run_sendFile w' fd' mem here, ?_⟩
      have sent := rewrote.idle.run_sendFile w' fd' mem' here'
      unfold fileMessages at sent ⊢
      rwa [same] at sent
    · exact .inl mem'

end

def aboutToEvict : List Request :=
  [.fileInit [97], .fileOpen [97] 7, .fileWrite [97] 7 9 [1, 2, 3, 4, 5, 6, 7, 8, 9],
    .fileInit [98], .fileOpen [98] 7]

def sixBytes : List UInt8 := [11, 12, 13, 14, 15, 16]

theorem write_read_example : ∃ s' : Server Unit,
    (server Unit smallConfig).run ()
        (fileWrite smallConfig 5 0 [98] 7 sixBytes.length sixBytes)
        (reached smallConfig 5 aboutToEvict) = .ok ((), s') ∧
    ∃ chunks : List (List UInt8), chunks.flatten = sixBytes ∧
      ∀ (w' : Unit) (fd' : Nat), (server Unit smallConfig).run w' (sendFile smallConfig fd' 1) s' =
        .ok ((), s'.sendAll fd' (.sizeT sixBytes.length :: chunks.map .bytes)) := by
  have ran : ((server Unit smallConfig).run () (fileWrite smallConfig 5 0 [98] 7 sixBytes.length sixBytes)
      (reached smallConfig 5 aboutToEvict)).okAnd (fun (_, s') =>
        s'.sent = (reached smallConfig 5 aboutToEvict).sent ++ [(0, .int 0), (0, .int 0)]) = true := by
    decide +kernel
  obtain ⟨⟨_, s'⟩, completed, answered⟩ := Outcome.okAnd_iff.mp ran
  have served : Served Unit smallConfig (fun _ _ => True) (reached smallConfig 5 aboutToEvict) :=
    served_reached (by simp [aboutToEvict, Request.WellFormed]) (fun _ _ _ => trivial)
      (by decide +kernel)
  exact ⟨s', completed, (write_read served (by decide +kernel) (by decide) completed
    (of_decide_eq_true answered)).1⟩

end FileServer
