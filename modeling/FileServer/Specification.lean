import FileServer.Model.WorkerFunctions
import FileServer.Simulation
import Mathlib.Data.List.Forall2

/-!
# What the server is for

The server as its clients see it: files with a content and the clients that have them open, what each
request may be answered, and what a log of answers says about a file.
-/

namespace FileServer

structure StoredFile where
  content : List UInt8
  clients : List Pid
deriving DecidableEq

abbrev Files := Path → Option StoredFile

namespace StoredFile

def openAnswer (file : StoredFile) (pid : Pid) : Int := if pid ∈ file.clients then 0 else EPERM

def writeAnswer (file : StoredFile) (limit : Nat) (pid : Pid) (size : Nat) : Int :=
  if limit < size then EFBIG else if file.content ≠ [] then EEXIST else file.openAnswer pid

def appendAnswer (file : StoredFile) (limit : Nat) (pid : Pid) (size : Nat) : Int :=
  if limit < file.content.length + size then EPERM else file.openAnswer pid

/-- The messages that carry a file: its size, then its content in pieces. -/
def Carries (file : StoredFile) (msgs : List Msg) : Prop :=
  ∃ pieces : List (List UInt8), pieces.flatten = file.content ∧
    msgs = .sizeT file.content.length :: pieces.map .bytes

end StoredFile

/-- What is sent for one of many files: its base name, then the file. -/
def Files.Entry (files : Files) (path : Path) (msgs : List Msg) : Prop :=
  ∃ file base rest, files path = some file ∧ fileShortenName path = some base ∧ file.Carries rest ∧
    msgs = .int (base.length + 1) :: .bytes (base ++ [0]) :: rest

/-- Files may be gone, other than `kept`. -/
structure Files.Loses (files files' : Files) (kept : Path) : Prop where
  kept : files' kept = files kept
  others : ∀ path, files' path = none ∨ files' path = files path

/-- The file that a request gives up on if there is none. -/
def Request.needs : Request → Option Path
  | .fileRead path _ | .fileOpen path _ | .fileClose path _ | .fileDelete path _ | .fileSearch path =>
      some path
  | _ => none

/-- What a request may be answered, and the files after it. -/
inductive Answers (limit : Nat) (files : Files) : Request → List Msg → Files → Prop where
  | missing {r path} (needs : r.needs = some path) (absent : files path = none) :
      Answers limit files r [.int ENOENT] files
  | searched {path file} (here : files path = some file) :
      Answers limit files (.fileSearch path) [.int 0] files
  | created {path} (absent : files path = none) :
      Answers limit files (.fileInit path) [.int 1] (Function.update files path (some ⟨[], []⟩))
  | opened {path pid file} (here : files path = some file) :
      Answers limit files (.fileOpen path pid) [.int 0]
        (Function.update files path (some { file with clients := pid :: file.clients }))
  | closed {path pid file} (here : files path = some file) :
      Answers limit files (.fileClose path pid) [.int 0]
        (Function.update files path (some { file with clients := file.clients.erase pid }))
  | read {path pid file msgs} (here : files path = some file) (accepted : file.openAnswer pid = 0)
      (carries : file.Carries msgs) : Answers limit files (.fileRead path pid) (.int 0 :: msgs) files
  | readRefused {path pid file} (here : files path = some file) (refused : file.openAnswer pid ≠ 0) :
      Answers limit files (.fileRead path pid) [.int (file.openAnswer pid)] files
  | readMany {fileNum rand paths entries} (distinct : paths.Nodup)
      (few : fileNum ≠ 0 → paths.length ≤ fileNum.toNat)
      (all : ∀ path file, files path = some file → file.content ≠ [] →
        path ∈ paths ∨ fileNum ≠ 0 ∧ paths.length = fileNum.toNat)
      (each : List.Forall₂ files.Entry paths entries) :
      Answers limit files (.fileNRead fileNum rand) (entries.flatten ++ [.int 0]) files
  | written {path pid size data file files'} (here : files path = some file)
      (accepted : file.writeAnswer limit pid size = 0) (nonempty : data ≠ [])
      (loses : files.Loses files' path) :
      Answers limit files (.fileWrite path pid size data) [.int 0, .int 0]
        (Function.update files' path (some { file with content := data }))
  | writeRefused {path pid size data file} (here : files path = some file)
      (refused : file.writeAnswer limit pid size ≠ 0) :
      Answers limit files (.fileWrite path pid size data) [.int (file.writeAnswer limit pid size)] files
  | appended {path pid size data file files'} (here : files path = some file)
      (accepted : file.appendAnswer limit pid size = 0) (nonempty : file.content ≠ [])
      (loses : files.Loses files' path) :
      Answers limit files (.fileAppend path pid size data) [.int 0, .int 0]
        (Function.update files' path (some { file with content := file.content ++ data }))
  | appendRefused {path pid size data file} (here : files path = some file)
      (refused : file.appendAnswer limit pid size ≠ 0) :
      Answers limit files (.fileAppend path pid size data)
        [.int (file.appendAnswer limit pid size)] files
  | deleted {path pid file} (here : files path = some file) (accepted : file.openAnswer pid = 0) :
      Answers limit files (.fileDelete path pid) [.int 0] (Function.update files path none)
  | deleteRefused {path pid file} (here : files path = some file) (refused : file.openAnswer pid ≠ 0) :
      Answers limit files (.fileDelete path pid) [.int (file.openAnswer pid)] files
  | lock : Answers limit files .fileLock [] files
  | unlock : Answers limit files .fileUnlock [] files

/-- Requests come with the descriptor of their client. -/
def fileService (limit : Nat) : Service Files (Nat × Request) (List Msg) where
  start _ := none
  serves files request msgs files' := Answers limit files request.2 msgs files'

/-! ## What a log says -/

abbrev Log := List ((Nat × Request) × List Msg)

/-- What is known of the file at `path` after an answered request. -/
def Request.recall (path : Path) (known : Option StoredFile) (accepted : Bool) :
    Request → Option StoredFile
  | .fileInit other => if other = path then some ⟨[], []⟩ else known
  | .fileOpen other pid => known.map fun file =>
      if other = path ∧ accepted then { file with clients := pid :: file.clients } else file
  | .fileClose other pid => known.map fun file =>
      if other = path ∧ accepted then { file with clients := file.clients.erase pid } else file
  | .fileWrite other _ _ data => known.map fun file =>
      if other = path ∧ accepted then { file with content := data } else file
  | .fileAppend other _ _ data => known.map fun file =>
      if other = path ∧ accepted then { file with content := file.content ++ data } else file
  | .fileDelete other _ => if other = path ∧ accepted then none else known
  | _ => known

/-- The file at `path`, if it is still there, as the requests that were accepted say. -/
def Log.recall (log : Log) (path : Path) : Option StoredFile :=
  log.foldl (fun known (request, msgs) =>
    request.2.recall path known (msgs.head? = some (.int 0))) none

section
variable {limit : Nat} {files files' : Files} {r : Request} {msgs : List Msg} {path : Path}
  {file : StoredFile} {log : Log} {fd : Nat}

theorem Files.Loses.found (loses : files.Loses files' path) {other : Path}
    (here : files' other = some file) : files other = some file := by
  rcases loses.others other with gone | same
  · rw [gone] at here
    cases here
  · rw [← same]
    exact here

theorem Files.found_update {other : Path} {new : Option StoredFile}
    (here : Function.update files other new path = some file) :
    other = path ∧ new = some file ∨ other ≠ path ∧ files path = some file := by
  by_cases same : other = path
  · subst same
    rw [Function.update_self] at here
    exact .inl ⟨rfl, here⟩
  · rw [Function.update_of_ne (Ne.symm same)] at here
    exact .inr ⟨same, here⟩

theorem Request.recall_refused {known : Option StoredFile} (notCreated : ∀ path, r ≠ .fileInit path) :
    r.recall path known false = known := by
  cases r with
  | fileInit other => exact absurd rfl (notCreated other)
  | _ => cases known <;> simp [Request.recall]

theorem Answers.recall (answers : Answers limit files r msgs files') (here : files' path = some file)
    {known : Option StoredFile} (knows : ∀ file, files path = some file → known = some file) :
    r.recall path known (msgs.head? = some (.int 0)) = some file := by
  have kept (same : r.recall path known (msgs.head? = some (.int 0)) = known)
      (before : files path = some file) :
      r.recall path known (msgs.head? = some (.int 0)) = some file := by rw [same, knows file before]
  cases answers with
  | missing needs absent =>
      refine kept (Request.recall_refused fun other created => ?_) here
      rw [created] at needs
      cases needs
  | searched | read | readRefused | readMany | lock | unlock => exact kept rfl here
  | created absent =>
      rcases Files.found_update here with ⟨same, new⟩ | ⟨other, before⟩
      · simp [Request.recall, same, new]
      · exact kept (by simp [Request.recall, other]) before
  | opened found | closed found =>
      rcases Files.found_update here with ⟨same, new⟩ | ⟨other, before⟩
      · subst same
        cases new
        simp [Request.recall, knows _ found]
      · exact kept (by cases known <;> simp [Request.recall, other]) before
  | written found accepted nonempty loses | appended found accepted nonempty loses =>
      rcases Files.found_update here with ⟨same, new⟩ | ⟨other, before⟩
      · subst same
        cases new
        simp [Request.recall, knows _ found]
      · exact kept (by cases known <;> simp [Request.recall, other]) (loses.found before)
  | writeRefused found refused | appendRefused found refused | deleteRefused found refused =>
      refine kept ?_ here
      simp [Request.recall_refused, refused]
  | deleted found accepted =>
      rcases Files.found_update here with ⟨same, new⟩ | ⟨other, before⟩
      · cases new
      · exact kept (by simp [Request.recall, other]) before

theorem Files.Entry.mono (sub : ∀ path file, files path = some file → files' path = some file)
    (entry : files.Entry path msgs) : files'.Entry path msgs := by
  obtain ⟨file, base, rest, here, shortened, carries, same⟩ := entry
  exact ⟨file, base, rest, sub path file here, shortened, carries, same⟩

end

end FileServer
