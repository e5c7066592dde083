import FileServer.Bytes
import FileServer.Model.WorkerFunctions

/-!
# `workerFunctions.c` at the socket

The handlers with their calls of `readNB`. A read that finds the end of the stream fills its destination
only in part.
-/

namespace FileServer

/-! ## Fields -/

/-- The bytes of an `int`. -/
def intBytes (v : Int) : List UInt8 := leBytes 4 (v % 2 ^ 32).toNat
/-- The bytes of a `size_t`. -/
def sizeTBytes (n : Nat) : List UInt8 := leBytes 8 n

def Msg.sentBytes : Msg → List UInt8
  | .int v => intBytes v
  | .sizeT n => sizeTBytes n
  | .bytes data => data

/-- An `int` of which all bytes have been read. -/
def intOf (bytes : List UInt8) : Option Int :=
  if bytes.length = 4 then some (cInt (ofLeBytes bytes)) else none
def sizeTOf (bytes : List UInt8) : Option Nat :=
  if bytes.length = 8 then some (ofLeBytes bytes) else none
/-- The string in a buffer, if its end has been read. -/
def stringOf (buffer : List UInt8) : Option Path :=
  if 0 ∈ buffer then some (buffer.takeWhile (· ≠ 0)) else none

/-! ## Workers -/

inductive SocketOp where
  | readNB (n : Nat)
  | server (o : Op)

abbrev SocketOp.Resp : SocketOp → Type
  | .readNB _ => List UInt8
  | .server o => o.Resp

abbrev Worker (α : Type) := Program SocketOp SocketOp.Resp α

def handled {α : Type} : Handler α → Worker α
  | .ret a => .ret a
  | .op o next => .op (.server o) fun x => handled (next x)

/-- The use of a field; one that has not been read is not initialized. -/
def given {α : Type} : Option α → Handler α
  | some a => pure a
  | none => abort .inputBounds

namespace Socket

def readNB (n : Nat) : Worker (List UInt8) := Program.perform (SocketOp.readNB n)

/-- The path in front of a request; `none` if it cannot be allocated. -/
def readPath : Worker (Option Path) := do
  let pathSize ← handled (given (intOf (← readNB 4)))
  if pathSize < 0 then return none
  let filePath ← handled (given (stringOf (← readNB pathSize.toNat)))
  return some filePath

def fileSearchSilent : Worker (Int × Option FileId) := do
  match ← readPath with
  | none => return (-1, none)
  | some filePath => handled (FileServer.fileSearchSilent filePath)

def fileOpenCheck : Worker (Int × Option FileId) := do
  let (fileNotExists, filePtr) ← fileSearchSilent
  let clientPid ← readNB 4
  handled do
    if fileNotExists ≠ 0 then return (fileNotExists, filePtr)
    match filePtr with
    | none => return (EPERM, none)
    | some f =>
        lock (.file f)
        let file ← load f
        let clientPid ← given (intOf clientPid)
        unlock (.file f)
        return (if clientOpenSearch file.clientsOpened clientPid then 0 else EPERM, some f)

def fileRead (cfg : Config) (fd : Nat) : Worker Unit := do
  let (reqErr, fileReq) ← fileOpenCheck
  handled do
    writeNB fd (.int reqErr)
    if reqErr = 0 then
      sendFile cfg fd (← deref fileReq)

/-- `file_num` is `0` before it is read. -/
def fileNRead (cfg : Config) (fd : Nat) (rand : Nat → Nat) : Worker Unit := do
  let fileNum ← readNB 4
  handled (FileServer.fileNRead cfg fd (cInt (ofLeBytes fileNum)) rand)

def fileWrite (cfg : Config) (fuel fd : Nat) : Worker Unit := do
  let (reqErr, fileReq) ← fileOpenCheck
  let fileSize ← readNB 8
  let (f, fileSize, reqErr) ← handled do
    let f ← deref fileReq
    lock (.file f)
    let file ← load f
    let fileSize ← given (sizeTOf fileSize)
    let reqErr := if file.pagesN ≠ 0 then EEXIST else reqErr
    let reqErr := if cfg.serverMemorySize < fileSize then EFBIG else reqErr
    writeNB fd (.int reqErr)
    return (f, fileSize, reqErr)
  if reqErr ≠ 0 then handled (unlock (.file f))
  else
    handled do
      store f (.size fileSize)
      let _ ← fileNUpdate cfg.fileMax
      filePagesInitialize cfg fuel f
    let data ← readNB fileSize
    handled do
      let pagesN := (← load f).pagesN
      let rest ← writePages cfg f (pagesN - 1) 0 data
      let _ ← addPageToMem cfg rest f (pagesN - 1 : Nat) (lastPageSize cfg fileSize) 0
      fileStackAdd (.abspath f)
      unlock (.file f)
      writeNB fd (.int 0)

def fileAppend (cfg : Config) (fuel fd : Nat) : Worker Unit := do
  let (reqErr, fileReq) ← fileOpenCheck
  let appendSize ← readNB 8
  let (f, file, appendSize, reqErr) ← handled do
    let f ← deref fileReq
    lock (.file f)
    let file ← load f
    let appendSize ← given (sizeTOf appendSize)
    let reqErr := if cfg.serverMemorySize < sizeT (appendSize + file.size) then 1 else reqErr
    writeNB fd (.int reqErr)
    return (f, file, appendSize, reqErr)
  if reqErr ≠ 0 then handled (unlock (.file f))
  else
    let bytesAvailable := cInt (cfg.pageSize - file.size % cfg.pageSize : Nat)
    let bytesOverflow := cInt (sizeT (appendSize - bytesAvailable))
    let newPageN := if 0 < bytesOverflow then
        cInt (file.pagesN + sizeT bytesOverflow / cfg.pageSize + 1 : Nat)
      else file.pagesN
    handled do
      filePagesRenew fuel f newPageN
      -- malloc refuses sizes above PTRDIFF_MAX
      if 2 ^ 63 ≤ appendSize then abort .inputBounds
    let data ← readNB appendSize
    handled (appendRest cfg fd f file appendSize bytesAvailable bytesOverflow data)

/-- What `fileOpen` and `fileClose` do with the list of clients. -/
def updateClients (fd : Nat) (update : Pid → List Pid → List Pid) : Worker Unit := do
  let (reqErr, fileReq) ← fileSearchSilent
  handled (writeNB fd (.int reqErr))
  let clientPid ← readNB 4
  handled do
    if reqErr = 0 then
      let f ← deref fileReq
      lock (.file f)
      let file ← load f
      store f (.clientsOpened (update (← given (intOf clientPid)) file.clientsOpened))
      unlock (.file f)

def fileOpen (fd : Nat) : Worker Unit := updateClients fd (· :: ·)

def fileClose (fd : Nat) : Worker Unit := updateClients fd fun clientPid clients =>
  clientPidDelete clients clientPid

def fileDelete (fd : Nat) : Worker Unit := do
  let (reqErr, fileReq) ← fileOpenCheck
  handled do
    writeNB fd (.int reqErr)
    if reqErr = 0 then
      let f ← deref fileReq
      lock (.file f)
      let _ ← hashGetFile (.abspath f) .del
      unlock (.file f)
      fileFree f

def fileSearch (fd : Nat) : Worker Unit := do
  match ← readPath with
  | none => return ()
  | some filePath => handled do let _ ← FileServer.fileSearch fd filePath

def fileInit (fd : Nat) : Worker Unit := do
  match ← readPath with
  | none => return ()
  | some filePath => handled (FileServer.fileInit fd filePath)

/-- `ReqFunArr`. -/
def reqFunArr (cfg : Config) (fuel fd : Nat) (rand : Nat → Nat) : Int → Worker Unit
  | 0 => fileRead cfg fd
  | 1 => fileNRead cfg fd rand
  | 2 => fileWrite cfg fuel fd
  | 3 => fileAppend cfg fuel fd
  | 4 => fileOpen fd
  | 5 => fileClose fd
  | 6 => fileDelete fd
  | 7 => return ()
  | 8 => return ()
  | 9 => fileSearch fd
  | 10 => fileInit fd
  | _ => handled (abort .inputBounds)

end Socket

end FileServer
