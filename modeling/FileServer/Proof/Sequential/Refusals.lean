import FileServer.Proof.Sequential.Requests

/-!
# Refused requests
-/

namespace FileServer
open Program

def MustRefuse (cfg : Config) (σ : Store) : Request → Prop
  | .fileRead path pid | .fileDelete path pid => σ.lookup cfg path = .ok none ∨
      ∃ f file, σ.lookup cfg path = .ok (some f) ∧ σ.files f = some file ∧
        clientOpenSearch file.clientsOpened pid = false
  | .fileWrite path pid fileSize _ => σ.lookup cfg path = .ok none ∨
      ∃ f file, σ.lookup cfg path = .ok (some f) ∧ σ.files f = some file ∧
        (clientOpenSearch file.clientsOpened pid = false ∨ file.pagesN ≠ 0 ∨
          cfg.serverMemorySize < fileSize)
  | .fileAppend path pid appendSize _ => σ.lookup cfg path = .ok none ∨
      ∃ f file, σ.lookup cfg path = .ok (some f) ∧ σ.files f = some file ∧
        (clientOpenSearch file.clientsOpened pid = false ∨
          cfg.serverMemorySize < file.size + appendSize)
  | .fileOpen path _ | .fileClose path _ => σ.lookup cfg path = .ok none
  | _ => False

/-- The handler answers one nonzero code and changes nothing else. -/
def AnswersError {W : Type} (cfg : Config) (w : W) (fuel fd : Nat) (r : Request) (s : Server W) :
    Prop :=
  ∃ err : Int, err ≠ 0 ∧ (server W cfg).run w (handle cfg fuel fd r) s = .ok ((), s.send fd (.int err))

/-- The record that `fileWrite` and `fileAppend` lock exists, and the new size that `fileAppend`
computes has not wrapped around to one that fits, at least not for a client that may append. -/
def Guarded (cfg : Config) (σ : Store) : Request → Prop
  | .fileWrite path _ _ _ => σ.lookup cfg path ≠ .ok none
  | .fileAppend path pid appendSize _ => σ.lookup cfg path ≠ .ok none ∧
      ∀ f file, σ.lookup cfg path = .ok (some f) → σ.files f = some file →
        clientOpenSearch file.clientsOpened pid = true → 2 ^ 64 ≤ file.size + appendSize →
        cfg.serverMemorySize < file.size + appendSize - 2 ^ 64
  | _ => True

section
variable {W : Type} {cfg : Config} {w : W} {s : Server W} {path : Path} {pid : Pid} {n fuel fd : Nat}
  {data : List UInt8} {f : FileId} {file : MemFile}

theorem openError_of_not_opened (closed : clientOpenSearch file.clientsOpened pid = false) :
    openError file pid ≠ 0 := by
  intro accepted
  rw [openError_eq_zero, closed] at accepted
  cases accepted

theorem sizeT_of_wrapped {m : Nat} (low : 2 ^ 64 ≤ m) (high : m < 2 ^ 65) : sizeT m = m - 2 ^ 64 := by
  unfold sizeT
  omega

theorem not_answersError_of_fault {r : Request} {e : Fault}
    (faults : (server W cfg).run w (handle cfg fuel fd r) s = .fault e) :
    ¬AnswersError cfg w fuel fd r s := by
  rintro ⟨err, -, answered⟩
  rw [faults] at answered
  cases answered

theorem write_refused (idle : Idle cfg s) (must : MustRefuse cfg s.store (.fileWrite path pid n data)) :
    AnswersError cfg w fuel fd (.fileWrite path pid n data) s ↔
      Guarded cfg s.store (.fileWrite path pid n data) := by
  rcases must with missing | ⟨f, file, searched, found, why⟩
  · apply iff_of_false
    · exact not_answersError_of_fault (idle.run_fileWrite_missing w fuel fd pid n data missing)
    · exact fun guarded => guarded missing
  · apply iff_of_true
    · have refused : writeError cfg file pid n ≠ 0 := by
        intro accepted
        obtain ⟨fits, empty, opened⟩ := writeError_eq_zero.mp accepted
        rcases why with closed | written | large
        · rw [closed] at opened
          cases opened
        · exact written empty
        · exact Nat.not_le.mpr large fits
      exact ⟨_, refused, idle.run_fileWrite_refused w fuel fd pid n data searched found refused⟩
    · show s.store.lookup cfg path ≠ .ok none
      rw [searched]
      nofun

theorem append_refused (idle : Idle cfg s) (wellFormed : n < 2 ^ 64)
    (must : MustRefuse cfg s.store (.fileAppend path pid n data)) :
    AnswersError cfg w fuel fd (.fileAppend path pid n data) s ↔
      Guarded cfg s.store (.fileAppend path pid n data) := by
  rcases must with missing | ⟨f, file, searched, found, why⟩
  · apply iff_of_false
    · exact not_answersError_of_fault (idle.run_fileAppend_missing w fuel fd pid n data missing)
    · exact fun guarded => guarded.1 missing
  · have mem : f ∈ s.store.recorded := Store.hashTbSearch_mem (Store.lookup_eq_ok.mp searched)
    have bounded := (idle.consistent.shaped f file mem found nofun).bounded
    have limit := cfg.serverMemorySize_le
    have known : s.store.lookup cfg path ≠ .ok none := by
      rw [searched]
      nofun
    by_cases accepted : appendError cfg file pid n = 0
    · -- only a size that has wrapped around gets here
      obtain ⟨checked, opened⟩ := appendError_eq_zero.mp accepted
      have large : cfg.serverMemorySize < file.size + n := by
        rcases why with closed | large
        · rw [closed] at opened
          cases opened
        · exact large
      rw [← Int.natCast_add, Nat.add_comm] at checked
      have wraps : 2 ^ 64 ≤ file.size + n := by
        by_contra small
        rw [sizeT_of_small (by omega)] at checked
        omega
      rw [sizeT_of_wrapped wraps (by omega)] at checked
      apply iff_of_false
      · rintro ⟨err, -, answered⟩
        change (server W cfg).run w (fileAppend cfg fuel fd path pid n data) s = _ at answered
        rw [idle.run_fileAppend_checked w fuel fd pid n data searched found,
          if_neg (not_not.mpr accepted)] at answered
        have never : Ends False cfg w (appendAccepted cfg fuel fd f file n data) (fun _ _ => False)
            ((s.setOwner (.file f) (some w)).send fd (.int (appendError cfg file pid n))) :=
          ends_appendAccepted_large fuel fd n data (by omega)
        exact never.run answered
      · rintro ⟨-, guarded⟩
        have above := guarded f file searched found opened wraps
        omega
    · apply iff_of_true
      · exact ⟨_, accepted, idle.run_fileAppend_refused w fuel fd pid n data searched found accepted⟩
      · refine ⟨known, fun f' file' searched' found' opened wraps => ?_⟩
        cases searched.symm.trans searched'
        cases Option.some.inj (found.symm.trans found')
        by_contra fits
        apply accepted
        rw [appendError_eq_zero, ← Int.natCast_add, Nat.add_comm,
          sizeT_of_wrapped wraps (by omega)]
        exact ⟨Nat.not_lt.mp fits, opened⟩

theorem refusal_harmless_iff {r : Request} (served : Served W cfg (fun _ _ => True) s)
    (wellFormed : r.WellFormed) (must : MustRefuse cfg s.store r) (w : W) (fuel fd : Nat) :
    AnswersError cfg w fuel fd r s ↔ Guarded cfg s.store r := by
  have idle := served.idle
  have missed : ENOENT ≠ 0 := by decide
  cases r with
  | fileRead path pid =>
      apply iff_of_true _ trivial
      rcases must with missing | ⟨f, file, searched, found, closed⟩
      · exact ⟨_, missed, idle.run_fileRead_missing w fd pid missing⟩
      · have refused := openError_of_not_opened closed
        exact ⟨_, refused, idle.run_fileRead_refused w fd pid searched found refused⟩
  | fileDelete path pid =>
      apply iff_of_true _ trivial
      rcases must with missing | ⟨f, file, searched, found, closed⟩
      · exact ⟨_, missed, idle.run_fileDelete_missing w fd pid missing⟩
      · have refused := openError_of_not_opened closed
        exact ⟨_, refused, idle.run_fileDelete_refused w fd pid searched found refused⟩
  | fileOpen path pid =>
      exact iff_of_true ⟨_, missed, idle.run_fileOpen_missing w fd pid must⟩ trivial
  | fileClose path pid =>
      exact iff_of_true ⟨_, missed, idle.run_fileClose_missing w fd pid must⟩ trivial
  | fileWrite path pid n data => exact write_refused idle must
  | fileAppend path pid n data => exact append_refused idle wellFormed.2 must
  | fileNRead fileNum rand => cases must
  | fileLock => cases must
  | fileUnlock => cases must
  | fileSearch path => cases must
  | fileInit path => cases must

end

def writeNowhere : Request := .fileWrite [97] 7 1 [1]
def appendNowhere : Request := .fileAppend [97] 7 1 [1]

/-- A write and an append to a file that does not exist follow a null pointer. -/
theorem refusal_harmful :
    (writeNowhere.WellFormed ∧
      MustRefuse smallConfig (reached smallConfig 5 []).store writeNowhere ∧
      (server Unit smallConfig).run () (handle smallConfig 5 0 writeNowhere)
        (reached smallConfig 5 []) = .fault .nullFile ∧
      ¬AnswersError smallConfig () 5 0 writeNowhere (reached smallConfig 5 [])) ∧
    appendNowhere.WellFormed ∧
      MustRefuse smallConfig (reached smallConfig 5 []).store appendNowhere ∧
      (server Unit smallConfig).run () (handle smallConfig 5 0 appendNowhere)
        (reached smallConfig 5 []) = .fault .nullFile ∧
      ¬AnswersError smallConfig () 5 0 appendNowhere (reached smallConfig 5 []) := by
  have idle : Idle smallConfig (reached smallConfig 5 []) := idle_initial Unit smallConfig
  have missing : (reached smallConfig 5 []).store.lookup smallConfig [97] = .ok none := by
    decide +kernel
  have written := idle.run_fileWrite_missing () 5 0 7 1 [1] missing
  have appended := idle.run_fileAppend_missing () 5 0 7 1 [1] missing
  exact ⟨⟨by simp [writeNowhere, Request.WellFormed], .inl missing, written,
    not_answersError_of_fault written⟩, by simp [appendNowhere, Request.WellFormed],
    .inl missing, appended, not_answersError_of_fault appended⟩

def oneOpen : List Request := [.fileInit [97], .fileOpen [97] 7]

theorem refusal_harmless_example :
    AnswersError smallConfig () 5 0 (.fileAppend [97] 8 1 [1]) (reached smallConfig 5 oneOpen) := by
  have served : Served Unit smallConfig (fun _ _ => True) (reached smallConfig 5 oneOpen) :=
    served_reached (by simp [oneOpen, Request.WellFormed]) (fun _ _ _ => trivial) (by decide +kernel)
  have searched : (reached smallConfig 5 oneOpen).store.lookup smallConfig [97] = .ok (some 0) := by
    decide +kernel
  have found : (reached smallConfig 5 oneOpen).store.files 0 = some ⟨[], 0, [97], 0, [7]⟩ := by
    decide +kernel
  have must : MustRefuse smallConfig (reached smallConfig 5 oneOpen).store
      (.fileAppend [97] 8 1 [1]) := Or.inr ⟨0, _, searched, found, .inl (by decide)⟩
  refine (refusal_harmless_iff served (by simp [Request.WellFormed]) must () 5 0).mpr ⟨?_, ?_⟩
  · rw [searched]
    nofun
  · intro f file searched' found' opened
    cases searched.symm.trans searched'
    cases Option.some.inj (found.symm.trans found')
    exact absurd opened (by decide)

end FileServer
