import FileServer.Proof.Sequential.Consistent
import FileServer.Proof.Sequential.Transfer

/-!
# What a handler checks before it changes anything

Exact runs between two requests: lookups, permission checks and refusals.
-/

namespace FileServer
open Program

/-- The state between two requests: no mutex is taken and the store is consistent. -/
structure Idle {W : Type} (cfg : Config) (s : Server W) : Prop where
  unlocked : ∀ m, s.owner m = none
  consistent : Consistent cfg none [] s.store

section
variable {W : Type} {cfg : Config} {s : Server W} {path : Path} {f : FileId} {file : MemFile}

namespace Idle

theorem send (idle : Idle cfg s) (fd : Nat) (msg : Msg) : Idle cfg (s.send fd msg) :=
  ⟨idle.unlocked, idle.consistent⟩

theorem relock (idle : Idle cfg s) (w : W) (found : s.store.files f = some file) :
    (server W cfg).run w (lock (.file f)) s = .ok ((), s.setOwner (.file f) (some w)) ∧
      (server W cfg).run w (unlock (.file f)) (s.setOwner (.file f) (some w)) = .ok ((), s) := by
  have live : s.Live (.file f) := by simp [Server.Live, found]
  have live' : (s.setOwner (.file f) (some w)).Live (.file f) := live
  refine ⟨run_lock live (idle.unlocked _), ?_⟩
  rw [run_unlock live', Server.setOwner_release s (some w) (idle.unlocked _)]

theorem run_hashGetFile (idle : Idle cfg s) (w : W) {r : Option FileId}
    (searched : s.store.lookup cfg path = .ok r) :
    (server W cfg).run w (hashGetFile (.buf path) .src) s = .ok (r, s) :=
  FileServer.run_hashGetFile (idle.unlocked _) rfl (Store.lookup_eq_ok.mp searched)

theorem run_hashGetCopy (idle : Idle cfg s) (w : W) (short : path.length < posixPathMax)
    {r : Option FileId} (searched : s.store.lookup cfg path = .ok r) :
    (server W cfg).run w (hashGetFile (.copy path) .src) s = .ok (r, s) :=
  FileServer.run_hashGetFile (idle.unlocked _) (if_pos short) (Store.lookup_eq_ok.mp searched)

theorem run_hashGetCopy_long (idle : Idle cfg s) (w : W) (long : posixPathMax ≤ path.length) :
    (server W cfg).run w (hashGetFile (.copy path) .src) s = .fault .inputBounds := by
  have step : Server.exec cfg w (.hashTbSearch (.copy path) .src) (s.setOwner .hashTB (some w)) =
      .fault .inputBounds := by
    simp [Server.exec, Server.readStr, Nat.not_lt.mpr long]
  unfold hashGetFile
  rw [Machine.run_bind_of (run_lock (m := .hashTB) trivial (idle.unlocked _)), Machine.run_bind]
  exact congrArg (Outcome.andThen · _) ((run_call _).trans step)

theorem run_fileSearchSilent (idle : Idle cfg s) (w : W) {r : Option FileId}
    (searched : s.store.lookup cfg path = .ok r) :
    (server W cfg).run w (fileSearchSilent path) s =
      .ok ((if r.isSome then 0 else ENOENT, r), s) := by
  unfold fileSearchSilent
  rw [Machine.run_bind_of (idle.run_hashGetFile w searched)]
  rfl

theorem run_fileOpenCheck_missing (idle : Idle cfg s) (w : W) (pid : Pid)
    (missing : s.store.lookup cfg path = .ok none) :
    (server W cfg).run w (fileOpenCheck path pid) s = .ok ((ENOENT, none), s) := by
  unfold fileOpenCheck
  rw [Machine.run_bind_of (idle.run_fileSearchSilent w missing)]
  rfl

theorem run_fileOpenCheck (idle : Idle cfg s) (w : W) (pid : Pid)
    (searched : s.store.lookup cfg path = .ok (some f)) (found : s.store.files f = some file) :
    (server W cfg).run w (fileOpenCheck path pid) s =
      .ok ((if clientOpenSearch file.clientsOpened pid then 0 else EPERM, some f), s) := by
  obtain ⟨locked, unlocked⟩ := idle.relock w found
  have loaded : (server W cfg).run w (load f) (s.setOwner (.file f) (some w)) =
      .ok (file, s.setOwner (.file f) (some w)) := run_load found
  unfold fileOpenCheck
  rw [Machine.run_bind_of (idle.run_fileSearchSilent w searched)]
  show (server W cfg).run w (do
    lock (.file f)
    let file ← load f
    unlock (.file f)
    return (if clientOpenSearch file.clientsOpened pid then 0 else EPERM, some f)) s = _
  rw [Machine.run_bind_of locked, Machine.run_bind_of loaded, Machine.run_bind_of unlocked]
  rfl

end Idle

/-! ## Refusals -/

def openError (file : MemFile) (pid : Pid) : Int :=
  if clientOpenSearch file.clientsOpened pid then 0 else EPERM

def writeError (cfg : Config) (file : MemFile) (pid : Pid) (fileSize : Nat) : Int :=
  if cfg.serverMemorySize < fileSize then EFBIG
  else if file.pagesN ≠ 0 then EEXIST
  else openError file pid

def appendError (cfg : Config) (file : MemFile) (pid : Pid) (appendSize : Nat) : Int :=
  if cfg.serverMemorySize < sizeT (appendSize + file.size) then 1 else openError file pid

theorem openError_eq_zero {pid : Pid} :
    openError file pid = 0 ↔ clientOpenSearch file.clientsOpened pid = true := by
  unfold openError
  split <;> simp_all [EPERM]

theorem writeError_eq_zero {pid : Pid} {fileSize : Nat} : writeError cfg file pid fileSize = 0 ↔
    fileSize ≤ cfg.serverMemorySize ∧ file.pagesN = 0 ∧
      clientOpenSearch file.clientsOpened pid = true := by
  rw [← openError_eq_zero]
  unfold writeError
  by_cases large : cfg.serverMemorySize < fileSize
  · rw [if_pos large]
    exact iff_of_false (by decide) fun h => Nat.not_le.mpr large h.1
  · rw [if_neg large]
    by_cases written : file.pagesN ≠ 0
    · rw [if_pos written]
      exact iff_of_false (by decide) fun h => written h.2.1
    · rw [if_neg written]
      simp [Nat.not_lt.mp large, not_not.mp written]

theorem appendError_eq_zero {pid : Pid} {n : Nat} : appendError cfg file pid n = 0 ↔
    sizeT (n + file.size) ≤ cfg.serverMemorySize ∧
      clientOpenSearch file.clientsOpened pid = true := by
  rw [← openError_eq_zero]
  unfold appendError
  by_cases large : cfg.serverMemorySize < sizeT (n + file.size)
  · rw [if_pos large]
    exact iff_of_false (by decide) fun h => Nat.not_le.mpr large h.1
  · rw [if_neg large]
    simp [Nat.not_lt.mp large]

namespace Idle

theorem run_fileRead_missing (idle : Idle cfg s) (w : W) (fd : Nat) (pid : Pid)
    (missing : s.store.lookup cfg path = .ok none) :
    (server W cfg).run w (fileRead cfg fd path pid) s = .ok ((), s.send fd (.int ENOENT)) := by
  unfold fileRead
  rw [Machine.run_bind_of (idle.run_fileOpenCheck_missing w pid missing)]
  rfl

theorem run_fileRead_refused (idle : Idle cfg s) (w : W) (fd : Nat) (pid : Pid)
    (searched : s.store.lookup cfg path = .ok (some f)) (found : s.store.files f = some file)
    (refused : openError file pid ≠ 0) :
    (server W cfg).run w (fileRead cfg fd path pid) s =
      .ok ((), s.send fd (.int (openError file pid))) := by
  unfold fileRead
  rw [Machine.run_bind_of (idle.run_fileOpenCheck w pid searched found)]
  show (server W cfg).run w (do
    writeNB fd (.int (openError file pid))
    if openError file pid = 0 then sendFile cfg fd (← deref (some f))) s = _
  rw [Machine.run_bind_of (run_writeNB fd _), if_neg refused]
  rfl

theorem run_fileDelete_missing (idle : Idle cfg s) (w : W) (fd : Nat) (pid : Pid)
    (missing : s.store.lookup cfg path = .ok none) :
    (server W cfg).run w (fileDelete fd path pid) s = .ok ((), s.send fd (.int ENOENT)) := by
  unfold fileDelete
  rw [Machine.run_bind_of (idle.run_fileOpenCheck_missing w pid missing)]
  rfl

theorem run_fileDelete_refused (idle : Idle cfg s) (w : W) (fd : Nat) (pid : Pid)
    (searched : s.store.lookup cfg path = .ok (some f)) (found : s.store.files f = some file)
    (refused : openError file pid ≠ 0) :
    (server W cfg).run w (fileDelete fd path pid) s =
      .ok ((), s.send fd (.int (openError file pid))) := by
  unfold fileDelete
  rw [Machine.run_bind_of (idle.run_fileOpenCheck w pid searched found)]
  dsimp only
  rw [Machine.run_bind_of (run_writeNB fd _)]
  show (server W cfg).run w (if openError file pid = 0 then _ else _) _ = _
  rw [if_neg refused]
  rfl

theorem run_fileOpen_missing (idle : Idle cfg s) (w : W) (fd : Nat) (pid : Pid)
    (missing : s.store.lookup cfg path = .ok none) :
    (server W cfg).run w (fileOpen fd path pid) s = .ok ((), s.send fd (.int ENOENT)) := by
  unfold fileOpen
  rw [Machine.run_bind_of (idle.run_fileSearchSilent w missing)]
  rfl

theorem run_fileClose_missing (idle : Idle cfg s) (w : W) (fd : Nat) (pid : Pid)
    (missing : s.store.lookup cfg path = .ok none) :
    (server W cfg).run w (fileClose fd path pid) s = .ok ((), s.send fd (.int ENOENT)) := by
  unfold fileClose
  rw [Machine.run_bind_of (idle.run_fileSearchSilent w missing)]
  rfl

/-- `fileWrite` locks the record before it looks at the result of the search. -/
theorem run_fileWrite_missing (idle : Idle cfg s) (w : W) (fuel fd : Nat) (pid : Pid)
    (fileSize : Nat) (data : List UInt8) (missing : s.store.lookup cfg path = .ok none) :
    (server W cfg).run w (fileWrite cfg fuel fd path pid fileSize data) s = .fault .nullFile := by
  unfold fileWrite
  rw [Machine.run_bind_of (idle.run_fileOpenCheck_missing w pid missing)]
  rfl

theorem run_fileAppend_missing (idle : Idle cfg s) (w : W) (fuel fd : Nat) (pid : Pid)
    (appendSize : Nat) (data : List UInt8) (missing : s.store.lookup cfg path = .ok none) :
    (server W cfg).run w (fileAppend cfg fuel fd path pid appendSize data) s =
      .fault .nullFile := by
  unfold fileAppend
  rw [Machine.run_bind_of (idle.run_fileOpenCheck_missing w pid missing)]
  rfl

theorem run_fileWrite_checked (idle : Idle cfg s) (w : W) (fuel fd : Nat) (pid : Pid)
    (fileSize : Nat) (data : List UInt8) (searched : s.store.lookup cfg path = .ok (some f))
    (found : s.store.files f = some file) :
    (server W cfg).run w (fileWrite cfg fuel fd path pid fileSize data) s =
      (server W cfg).run w
        (if writeError cfg file pid fileSize ≠ 0 then unlock (.file f)
          else writeAccepted cfg fuel fd f fileSize data)
        ((s.setOwner (.file f) (some w)).send fd (.int (writeError cfg file pid fileSize))) := by
  have loaded : (server W cfg).run w (load f) (s.setOwner (.file f) (some w)) =
      .ok (file, s.setOwner (.file f) (some w)) := run_load found
  unfold fileWrite
  rw [Machine.run_bind_of (idle.run_fileOpenCheck w pid searched found)]
  dsimp only
  rw [Machine.run_bind_of (run_deref_some f), Machine.run_bind_of (idle.relock w found).1,
    Machine.run_bind_of loaded, Machine.run_bind_of (run_writeNB fd _)]
  rfl

theorem run_fileWrite_refused (idle : Idle cfg s) (w : W) (fuel fd : Nat) (pid : Pid)
    (fileSize : Nat) (data : List UInt8) (searched : s.store.lookup cfg path = .ok (some f))
    (found : s.store.files f = some file) (refused : writeError cfg file pid fileSize ≠ 0) :
    (server W cfg).run w (fileWrite cfg fuel fd path pid fileSize data) s =
      .ok ((), s.send fd (.int (writeError cfg file pid fileSize))) := by
  rw [idle.run_fileWrite_checked w fuel fd pid fileSize data searched found, if_pos refused]
  exact ((idle.send fd (.int (writeError cfg file pid fileSize))).relock w found).2

theorem run_fileAppend_checked (idle : Idle cfg s) (w : W) (fuel fd : Nat) (pid : Pid)
    (appendSize : Nat) (data : List UInt8) (searched : s.store.lookup cfg path = .ok (some f))
    (found : s.store.files f = some file) :
    (server W cfg).run w (fileAppend cfg fuel fd path pid appendSize data) s =
      (server W cfg).run w
        (if appendError cfg file pid appendSize ≠ 0 then unlock (.file f)
          else appendAccepted cfg fuel fd f file appendSize data)
        ((s.setOwner (.file f) (some w)).send fd (.int (appendError cfg file pid appendSize))) := by
  have loaded : (server W cfg).run w (load f) (s.setOwner (.file f) (some w)) =
      .ok (file, s.setOwner (.file f) (some w)) := run_load found
  unfold fileAppend
  rw [Machine.run_bind_of (idle.run_fileOpenCheck w pid searched found)]
  dsimp only
  rw [Machine.run_bind_of (run_deref_some f), Machine.run_bind_of (idle.relock w found).1,
    Machine.run_bind_of loaded, Machine.run_bind_of (run_writeNB fd _)]
  rfl

theorem run_fileAppend_refused (idle : Idle cfg s) (w : W) (fuel fd : Nat) (pid : Pid)
    (appendSize : Nat) (data : List UInt8) (searched : s.store.lookup cfg path = .ok (some f))
    (found : s.store.files f = some file) (refused : appendError cfg file pid appendSize ≠ 0) :
    (server W cfg).run w (fileAppend cfg fuel fd path pid appendSize data) s =
      .ok ((), s.send fd (.int (appendError cfg file pid appendSize))) := by
  rw [idle.run_fileAppend_checked w fuel fd pid appendSize data searched found, if_pos refused]
  exact ((idle.send fd (.int (appendError cfg file pid appendSize))).relock w found).2

end Idle

end

end FileServer
