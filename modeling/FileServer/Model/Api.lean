import FileServer.Model.Socket

/-!
# `API.c`

The calls of the client library after a successful `openConnection`. A call of `malloc` succeeds unless
its size is negative, and the buffers for paths are long enough.
-/

namespace FileServer

/-- What a call asks of the client's own system. -/
inductive Local where
  | realpath (filePath : Path)
  | openInput (abspath : Path)
  | readInput (fileLen : Nat)
  | isDir (dirName : Path)
  | openDest (writeDest : Path)
  | writeDest (contents : List UInt8)
  | setErrno (errno : Int)

/-- The answer of `open` for an input file is the size that `fstat` gives. -/
abbrev Local.Resp : Local → Type
  | .realpath _ => Option Path
  | .openInput _ => Option Int
  | .readInput fileLen => { contents : List UInt8 // contents.length = fileLen }
  | .isDir _ | .openDest _ | .writeDest _ => Bool
  | .setErrno _ => Unit

inductive ApiOp where
  | send (data : List UInt8)
  | readNB (n : Nat)
  | ask (o : Local)
  | halt

abbrev ApiOp.Resp : ApiOp → Type
  | .send _ => Unit
  | .readNB _ => List UInt8
  | .ask o => o.Resp
  | .halt => Empty

abbrev Api (α : Type) := Program ApiOp ApiOp.Resp α

def EIO : Int := 5
def ENOTDIR : Int := 20

namespace Api

def send (data : List UInt8) : Api Unit := Program.perform (ApiOp.send data)
def readNB (n : Nat) : Api (List UInt8) := Program.perform (ApiOp.readNB n)
def ask (o : Local) : Api o.Resp := Program.perform (ApiOp.ask o)
/-- The call does not go on. -/
def halt {α : Type} : Api α := .op .halt fun x => x.elim

/-- The use of a field that has been read. -/
def given {α : Type} : Option α → Api α
  | some a => pure a
  | none => halt

/-- A negative length would become a size beyond the buffer. -/
def sendToSocket (buff : List UInt8) (len : Int) : Api Unit :=
  if cInt len < 0 then halt else send (buff.take (cInt len).toNat)

/-- `abspath`, `path_len` and, for a write, `file_len`. -/
structure FileData where
  abspath : Path
  pathLen : Int
  fileLen : Nat

def setFileData (filePath : Path) (forWrite : Bool) : Api (Option FileData) := do
  match ← ask (.realpath filePath) with
  | none => return none
  | some abspath =>
      let pathLen := min abspath.length posixPathMax + 1
      if posixPathMax ≤ pathLen then return none
      if forWrite then
        match ← ask (.openInput abspath) with
        | none => return none
        | some size => return some ⟨abspath, pathLen, sizeT size⟩
      else return some ⟨abspath, pathLen, 0⟩

/-- Tells the server which function is requested and for which file. -/
def sendMetadata (func : Int) (path : Option FileData) : Api Unit := do
  sendToSocket (intBytes func) 4
  match path with
  | none => return ()
  | some data =>
      sendToSocket (intBytes data.pathLen) 4
      sendToSocket (data.abspath ++ [0]) data.pathLen

def sendRequest (func : Int) (path : Option Path) : Api Int := do
  match path with
  | none =>
      sendMetadata func none
      return 0
  | some path =>
      match ← setFileData path false with
      | none => return -1
      | some data =>
          sendMetadata func (some data)
          given (intOf (← readNB 4))

/-- The end of `openFile` and of `closeFile`. -/
def withPid (pid : Pid) (response : Int) : Api Int := do
  if response ≠ -1 then
    sendToSocket (intBytes pid) 4
    if 0 < response then
      ask (.setErrno response)
      return -1
    return 0
  else
    ask (.setErrno EIO)
    return -1

/-- The flag `O_LOCK` has no effect. -/
def openFile (pid : Pid) (pathName : Path) (flags : BitVec 32) : Api Int := do
  if flags &&& 1 ≠ 0 then
    let response ← sendRequest 9 (some pathName)
    if response = ENOENT then
      let _ ← sendRequest 10 (some pathName)
      withPid pid (← sendRequest 4 (some pathName))
    else
      ask (.setErrno EEXIST)
      return -1
  else withPid pid (← sendRequest 4 (some pathName))

def closeFile (pid : Pid) (pathName : Path) : Api Int := do
  withPid pid (← sendRequest 5 (some pathName))

def writeFile (pid : Pid) (pathName : Path) : Api Int := do
  match ← setFileData pathName true with
  | none =>
      ask (.setErrno EIO)
      return -1
  | some data =>
      if data.fileLen = 0 then
        ask (.setErrno EIO)
        return -1
      sendMetadata 2 (some data)
      sendToSocket (intBytes pid) 4
      sendToSocket (sizeTBytes data.fileLen) 8
      let reqErr ← given (intOf (← readNB 4))
      if reqErr = 0 then
        let outBuff ← ask (.readInput data.fileLen)
        sendToSocket outBuff.val data.fileLen
        given (intOf (← readNB 4))
      else
        ask (.setErrno reqErr)
        return -1

def appendToFile (pid : Pid) (pathName : Path) (buf : List UInt8) (size : Nat) : Api Int := do
  match ← setFileData pathName false with
  | none =>
      ask (.setErrno EIO)
      return -1
  | some data =>
      sendMetadata 3 (some data)
      sendToSocket (intBytes pid) 4
      sendToSocket (sizeTBytes size) 8
      let reqErr ← given (intOf (← readNB 4))
      if reqErr = 0 then
        sendToSocket buf size
        given (intOf (← readNB 4))
      else
        ask (.setErrno reqErr)
        return -1

/-- What `readFile` returns and, if the file was sent, `*buf`. -/
def readFile (pid : Pid) (pathName : Path) : Api (Int × Option (List UInt8)) := do
  match ← setFileData pathName false with
  | none =>
      ask (.setErrno EIO)
      return (-1, none)
  | some data =>
      sendMetadata 0 (some data)
      sendToSocket (intBytes pid) 4
      let reqErr ← given (intOf (← readNB 4))
      if reqErr = 0 then
        let fileLen ← given (sizeTOf (← readNB 8))
        let outBuff ← readNB fileLen
        return (0, some outBuff)
      else
        ask (.setErrno reqErr)
        return (-1, none)

/-- Whether `dir_name` is set and `checkDir` finds a directory there. -/
def checkDir : Option Path → Api Bool
  | none => return false
  | some dirName => ask (.isDir dirName)

/-- Writes a received file into the directory. -/
def saveFile (dirName fileName : Path) (contents : List UInt8) : Api Bool := do
  if ← ask (.openDest (dirName ++ 47 :: fileName)) then ask (.writeDest contents)
  else return false

/-- The loop of `readNFiles`, for at most `fuel` names. -/
def readNFilesLoop (dirName : Option Path) : (fuel : Nat) → Api Int
  | 0 => halt
  | fuel + 1 => do
      let fileNameSize ← readNB 4
      if fileNameSize = [] then return 0
      let fileNameSize ← given (intOf fileNameSize)
      if fileNameSize = 0 then return 0
      if fileNameSize < 0 then halt
      let fileName ← readNB fileNameSize.toNat
      let fileS ← given (sizeTOf (← readNB 8))
      let fileContents ← readNB fileS
      let isDir ← checkDir dirName
      let saved ← if isDir then saveFile (dirName.getD []) (fileName.takeWhile (· ≠ 0)) fileContents
        else pure true
      if saved then readNFilesLoop dirName fuel else return -1

def readNFiles (n : Int) (dirName : Option Path) (fuel : Nat) : Api Int := do
  let isDir ← checkDir dirName
  if dirName.isSome ∧ isDir = false then
    ask (.setErrno ENOTDIR)
    return -1
  let response ← sendRequest 1 none
  if response = -1 then
    ask (.setErrno EIO)
    return -1
  sendToSocket (intBytes n) 4
  readNFilesLoop dirName fuel

def removeFile (pid : Pid) (fileName : Path) : Api Int := do
  match ← setFileData fileName false with
  | none =>
      ask (.setErrno EIO)
      return -1
  | some data =>
      sendMetadata 6 (some data)
      sendToSocket (intBytes pid) 4
      let reqErr ← given (intOf (← readNB 4))
      if reqErr ≠ 0 then
        ask (.setErrno reqErr)
        return -1
      return 0

end Api

/-- A call with its arguments. The size of an append is that of its buffer. -/
inductive Call where
  | openFile (pathName : Path) (flags : BitVec 32)
  | closeFile (pathName : Path)
  | writeFile (pathName : Path)
  | appendToFile (pathName : Path) (buf : List UInt8)
  | readFile (pathName : Path)
  | readNFiles (n : Int) (dirName : Option Path) (fuel : Nat)
  | removeFile (fileName : Path)

def Call.make (pid : Pid) : Call → Api Unit
  | .openFile pathName flags => do let _ ← Api.openFile pid pathName flags
  | .closeFile pathName => do let _ ← Api.closeFile pid pathName
  | .writeFile pathName => do let _ ← Api.writeFile pid pathName
  | .appendToFile pathName buf => do let _ ← Api.appendToFile pid pathName buf (sizeT buf.length)
  | .readFile pathName => do let _ ← Api.readFile pid pathName
  | .readNFiles n dirName fuel => do let _ ← Api.readNFiles n dirName fuel
  | .removeFile fileName => do let _ ← Api.removeFile pid fileName

def makeCalls (pid : Pid) : List Call → Api Unit
  | [] => return ()
  | call :: calls => do
      call.make pid
      makeCalls pid calls

end FileServer
