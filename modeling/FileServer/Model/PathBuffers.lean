import FileServer.CString
import FileServer.Model.Upload
import FileServer.Model.WorkerFunctions

/-!
# The path buffers of the client

The three places where `API.c` and `client.c` put a directory and a name together in an array of
`_POSIX_PATH_MAX` bytes. `buffer` is what the array holds before.
-/

namespace FileServer

/-- `write_dest` of `readNFiles`. -/
def readNFilesDest (buffer : List UInt8) (dirName fileName : Path) : Option (List UInt8) := do
  let writeDest ← strncpy buffer dirName posixPathMax
  let writeDest ← strncat writeDest [slash] posixPathMax
  strncat writeDest fileName posixPathMax

/-- `write_dest` of `fileToFolder`. -/
def fileToFolderDest (buffer : List UInt8) (dirName fileName : Path) : Option (List UInt8) := do
  let shortName ← fileShortenName fileName
  let writeDest ← strncpy buffer dirName posixPathMax
  let writeDest ← strncat writeDest [slash] posixPathMax
  strncat writeDest shortName posixPathMax

/-- `file_name` of `sendFilesDirectory`. -/
def sendFilesName (buffer : List UInt8) (dirName dName : Path) : Option (List UInt8) := do
  let fileName ← strncpy buffer dirName posixPathMax
  let fileName ← strncat fileName [slash] (posixPathMax - (← strlen fileName))
  strncat fileName dName (posixPathMax - (← strlen fileName))

/-- The paths handed to `stat`, the files issued, and what is returned. -/
structure Walked where
  stats : List Path
  issued : List Path
  ret : Int
deriving DecidableEq, Repr

/-- The loop of `sendFilesDirectory` with its array; `fresh` is what the array of a new call holds. -/
def sendLoopIn (fresh : List UInt8) (dirName : Path) (n : Int) :
    Entries → (sent : Int) → (buffer : List UInt8) → Option Walked
  | .done, sent, _ => some ⟨[], [], sent⟩
  | .file name rest, sent, buffer => do
      let buffer ← sendFilesName buffer dirName name
      let sent' := if n ≠ -1 then sent + 1 else sent
      if n < sent' ∧ n ≠ -1 then some ⟨[cString buffer], [], 0⟩
      else
        let walked ← sendLoopIn fresh dirName n rest sent' buffer
        some ⟨cString buffer :: walked.stats, cString buffer :: walked.issued, walked.ret⟩
  | .other name rest, sent, buffer => do
      let buffer ← sendFilesName buffer dirName name
      let walked ← sendLoopIn fresh dirName n rest sent buffer
      some ⟨cString buffer :: walked.stats, walked.issued, walked.ret⟩
  | .directory name opens entries rest, sent, buffer => do
      let buffer ← sendFilesName buffer dirName name
      let below ←
        if undotted name then
          if opens then sendLoopIn fresh (cString buffer) (n - sent) entries 0 fresh
          else some ⟨[], [], -1⟩
        else some ⟨[], [], 0⟩
      let walked ← sendLoopIn fresh dirName n rest (sent + below.ret) buffer
      some ⟨cString buffer :: below.stats ++ walked.stats, below.issued ++ walked.issued, walked.ret⟩

def sendFilesDirectoryIn (fresh : List UInt8) (dirName : Path) (n : Int) (opens : Bool)
    (entries : Entries) : Option Walked :=
  if opens then sendLoopIn fresh dirName n entries 0 fresh else some ⟨[], [], -1⟩

end FileServer
