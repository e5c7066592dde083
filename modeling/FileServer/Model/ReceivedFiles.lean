import FileServer.Model.Api

/-!
# Saving received files

`fileToFolder` and `readFileList` of `client.c`, and the machine that a client runs on: what the server
has sent, and the client's own files.
-/

namespace FileServer

namespace Api

/-- There is no last component to take of a name made of slashes alone. -/
def fileToFolder (fileName : Path) (dirName : Option Path) (fileContents : List UInt8) : Api Int :=
  match dirName with
  | none => return 0
  | some dirName => match fileShortenName fileName with
    | none => halt
    | some shortName => do
        if ← saveFile dirName shortName fileContents then return 0 else return -1

/-- What `readFileList` does for one token. -/
def readToken (pid : Pid) (dirName : Option Path) (token : Path) : Api Unit := do
  let _ ← openFile pid token 0
  let (ret, fileContents) ← readFile pid token
  if ret ≠ -1 then
    let _ ← fileToFolder token dirName (fileContents.getD [])
    let _ ← closeFile pid token

def readTokens (pid : Pid) (dirName : Option Path) : (tokens : List Path) → Api Unit
  | [] => return ()
  | token :: tokens => do
      readToken pid dirName token
      readTokens pid dirName tokens

/-- The tokens of `strtok_r(string, delim)`, for a `delim` of one character. -/
def tokensOf (string : Path) (delim : UInt8) : List Path := (string.splitOn delim).filter (· ≠ [])

/-- Without a token the first calls get `NULL`, for which `realpath` fails; nothing is sent. -/
def readFileList (pid : Pid) (string : Path) (dirName : Option Path) (delim : UInt8) : Api Int := do
  readTokens pid dirName (tokensOf string delim)
  return 0

end Api

/-- `dest` is the file that was opened last for writing. -/
structure Host where
  input : List UInt8
  files : Path → Option (List UInt8)
  dest : Path

/-- Local opens and writes succeed. `real` is `realpath`, and `dirName` the directory that exists. -/
def Host.exec (real : Path → Option Path) (dirName : Path) : (o : ApiOp) → Host →
    Outcome Fault (o.Resp × Host)
  | .send _, h => .ok ((), h)
  | .readNB n, h => .ok (h.input.take n, { h with input := h.input.drop n })
  | .ask (.realpath filePath), h => .ok (real filePath, h)
  | .ask (.openInput _), h => .ok (none, h)
  | .ask (.readInput fileLen), h => .ok (⟨List.replicate fileLen 0, List.length_replicate⟩, h)
  | .ask (.isDir name), h => .ok (decide (name = dirName), h)
  | .ask (.openDest writeDest), h =>
      .ok (true, { h with files := Function.update h.files writeDest (some []), dest := writeDest })
  | .ask (.writeDest contents), h =>
      .ok (true, { h with files := Function.update h.files h.dest (some contents) })
  | .ask (.setErrno _), h => .ok ((), h)
  | .halt, _ => .blocked

def host (real : Path → Option Path) (dirName : Path) : Machine ApiOp ApiOp.Resp Unit Host Fault where
  exec _ := Host.exec real dirName

end FileServer
