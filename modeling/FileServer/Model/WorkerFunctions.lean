import FileServer.Model.FileMemory

/-!
# `workerFunctions.c`

The request handlers. A handler gets the fields of its request already decoded; `fd` is the
client's descriptor.
-/

namespace FileServer

def EPERM : Int := 1
def ENOENT : Int := 2
def EEXIST : Int := 17
def EFBIG : Int := 27

def clientOpenSearch (list : List Pid) (clientPid : Pid) : Bool := list.contains clientPid

/-- The list without the cell found first. -/
def clientPidDelete (list : List Pid) (clientPid : Pid) : List Pid := list.erase clientPid

def fileSearchSilent (path : Path) : Handler (Int × Option FileId) := do
  let fileReq ← hashGetFile (.buf path) .src
  return (if fileReq.isSome then 0 else ENOENT, fileReq)

def fileOpenCheck (path : Path) (clientPid : Pid) : Handler (Int × Option FileId) := do
  let (fileNotExists, filePtr) ← fileSearchSilent path
  if fileNotExists ≠ 0 then return (fileNotExists, filePtr)
  match filePtr with
  | none => return (EPERM, none)
  | some f =>
      lock (.file f)
      let file ← load f
      unlock (.file f)
      return (if clientOpenSearch file.clientsOpened clientPid then 0 else EPERM, some f)

/-- The loop of `sendFile` over all pages but the last, with `n` of them left. -/
def sendPages (cfg : Config) (fd : Nat) (f : FileId) : (n i : Nat) → Handler Unit
  | 0, _ => return ()
  | n + 1, i => do
      let file ← load f
      match file.pages[i]? with
      | none => abort .pageIndex
      | some page =>
          writeNB fd (.bytes (← call (.memRead page cfg.pageSize)))
          sendPages cfg fd f n (i + 1)

def lastPageSize (cfg : Config) (size : Nat) : Nat :=
  if size % cfg.pageSize = 0 then cfg.pageSize else size % cfg.pageSize

def sendFile (cfg : Config) (fd : Nat) (f : FileId) : Handler Unit := do
  lock (.file f)
  let file ← load f
  writeNB fd (.sizeT file.size)
  if file.size ≠ 0 then
    sendPages cfg fd f (file.pagesN - 1) 0
    match file.pages[file.pagesN - 1]? with
    | none => abort .pageIndex
    | some page => writeNB fd (.bytes (← call (.memRead page (lastPageSize cfg file.size))))
  unlock (.file f)

def fileRead (cfg : Config) (fd : Nat) (path : Path) (pid : Pid) : Handler Unit := do
  let (reqErr, fileReq) ← fileOpenCheck path pid
  writeNB fd (.int reqErr)
  if reqErr = 0 then
    sendFile cfg fd (← deref fileReq)

/-- The loop of `fileWrite` and of `fileAppend` over whole pages, with `n` of them left, from page
`toWrite` on; returns the rest of the input. -/
def writePages (cfg : Config) (f : FileId) : (n toWrite : Nat) → List UInt8 → Handler (List UInt8)
  | 0, _, input => return input
  | n + 1, toWrite, input => do
      let _ ← addPageToMem cfg input f toWrite cfg.pageSize 0
      writePages cfg f n (toWrite + 1) (input.drop cfg.pageSize)

/-- `fileWrite` from the point where it has told the client that it accepts the request. -/
def writeAccepted (cfg : Config) (fuel fd : Nat) (f : FileId) (fileSize : Nat)
    (data : List UInt8) : Handler Unit := do
  store f (.size fileSize)
  let _ ← fileNUpdate cfg.fileMax
  filePagesInitialize cfg fuel f
  let pagesN := (← load f).pagesN
  let rest ← writePages cfg f (pagesN - 1) 0 (data.take fileSize)
  let _ ← addPageToMem cfg rest f (pagesN - 1 : Nat) (lastPageSize cfg fileSize) 0
  fileStackAdd (.abspath f)
  unlock (.file f)
  writeNB fd (.int 0)

def fileWrite (cfg : Config) (fuel fd : Nat) (path : Path) (pid : Pid) (fileSize : Nat)
    (data : List UInt8) : Handler Unit := do
  let (reqErr, fileReq) ← fileOpenCheck path pid
  let f ← deref fileReq
  lock (.file f)
  let file ← load f
  let reqErr := if file.pagesN ≠ 0 then EEXIST else reqErr
  let reqErr := if cfg.serverMemorySize < fileSize then EFBIG else reqErr
  writeNB fd (.int reqErr)
  if reqErr ≠ 0 then unlock (.file f)
  else writeAccepted cfg fuel fd f fileSize data

/-- The copying of `fileAppend`. -/
def appendData (cfg : Config) (f : FileId) (oldPages : Nat) (size appendSize : Nat)
    (bytesAvailable bytesOverflow : Int) (data : List UInt8) : Handler Unit := do
  -- malloc refuses sizes above PTRDIFF_MAX, and the copy then reads from NULL
  if 2 ^ 63 ≤ appendSize then abort .inputBounds
  let firstAdd := if sizeT bytesAvailable < appendSize then bytesAvailable else cInt appendSize
  let input := data.take appendSize
  let _ ← addPageToMem cfg input f (oldPages - 1 : Int) (sizeT firstAdd)
    (cInt ((size % cfg.pageSize : Nat)))
  let pagesN := (← load f).pagesN
  let rest ← writePages cfg f (pagesN - 1 - oldPages) oldPages (input.drop firstAdd.toNat)
  if oldPages ≠ pagesN then
    let _ ← addPageToMem cfg rest f (max oldPages (pagesN - 1) : Nat)
      (sizeT bytesOverflow % cfg.pageSize) 0

/-- `fileAppend` once the pages have been renewed. -/
def appendRest (cfg : Config) (fd : Nat) (f : FileId) (file : MemFile) (appendSize : Nat)
    (bytesAvailable bytesOverflow : Int) (data : List UInt8) : Handler Unit := do
  appendData cfg f file.pagesN file.size appendSize bytesAvailable bytesOverflow data
  store f (.size (sizeT (file.size + appendSize)))
  unlock (.file f)
  writeNB fd (.int 0)

/-- `fileAppend` from the point where it has told the client that it accepts the request; `file` is
the record as it was then. -/
def appendAccepted (cfg : Config) (fuel fd : Nat) (f : FileId) (file : MemFile) (appendSize : Nat)
    (data : List UInt8) : Handler Unit := do
  let bytesAvailable := cInt (cfg.pageSize - file.size % cfg.pageSize : Nat)
  let bytesOverflow := cInt (sizeT (appendSize - bytesAvailable))
  let newPageN := if 0 < bytesOverflow then
      cInt (file.pagesN + sizeT bytesOverflow / cfg.pageSize + 1 : Nat)
    else file.pagesN
  filePagesRenew fuel f newPageN
  appendRest cfg fd f file appendSize bytesAvailable bytesOverflow data

def fileAppend (cfg : Config) (fuel fd : Nat) (path : Path) (pid : Pid) (appendSize : Nat)
    (data : List UInt8) : Handler Unit := do
  let (reqErr, fileReq) ← fileOpenCheck path pid
  let f ← deref fileReq
  lock (.file f)
  let file ← load f
  let reqErr := if cfg.serverMemorySize < sizeT (appendSize + file.size) then 1 else reqErr
  writeNB fd (.int reqErr)
  if reqErr ≠ 0 then unlock (.file f)
  else appendAccepted cfg fuel fd f file appendSize data

def fileOpen (fd : Nat) (path : Path) (pid : Pid) : Handler Unit := do
  let (reqErr, fileReq) ← fileSearchSilent path
  writeNB fd (.int reqErr)
  if reqErr = 0 then
    let f ← deref fileReq
    lock (.file f)
    let file ← load f
    store f (.clientsOpened (pid :: file.clientsOpened))
    unlock (.file f)

def fileClose (fd : Nat) (path : Path) (pid : Pid) : Handler Unit := do
  let (reqErr, fileReq) ← fileSearchSilent path
  writeNB fd (.int reqErr)
  match fileReq with
  | none => return ()
  | some f =>
      if reqErr = 0 then
        lock (.file f)
        let file ← load f
        store f (.clientsOpened (clientPidDelete file.clientsOpened pid))
        unlock (.file f)

def fileDelete (fd : Nat) (path : Path) (pid : Pid) : Handler Unit := do
  let (reqErr, fileReq) ← fileOpenCheck path pid
  writeNB fd (.int reqErr)
  if reqErr = 0 then
    let f ← deref fileReq
    lock (.file f)
    let _ ← hashGetFile (.abspath f) .del
    unlock (.file f)
    fileFree f

/-- Returns the answer sent to the client. -/
def fileSearch (fd : Nat) (path : Path) : Handler Int := do
  let fileReq ← hashGetFile (.buf path) .src
  let found := if fileReq.isSome then 0 else ENOENT
  writeNB fd (.int found)
  return found

def fileInit (fd : Nat) (path : Path) : Handler Unit := do
  let f ← call (.newFile path)
  lock .hashTB
  lock (.file f)
  call (.hashTbAdd f)
  unlock .hashTB
  unlock (.file f)
  writeNB fd (.int 1)

/-! ## `fileNRead` -/

/-- The last token of `strtok_r(name, "/")`, if there is one. -/
def fileShortenName (name : Path) : Option Path :=
  (name.splitOn 47).filter (· ≠ []) |>.getLast?

/-- The names copied at the start of `arrayRandomPermutation`, from `n` cells from cell `i` on. -/
def arrayCopy : (n i : Nat) → Handler (List Path)
  | 0, _ => return []
  | n + 1, i => do
      match ← call (.stackCell i) with
      | none => abort .nullString
      | some name =>
          let names ← arrayCopy n (i + 1)
          return name :: names

def swap (names : List Path) (i j : Nat) : List Path :=
  (names.set i (names.getD j [])).set j (names.getD i [])

/-- The loop `for (i=n-1; i>0; i--)`, where `rand i` is what `rand()` returns at index `i`. -/
def shuffle (rand : Nat → Nat) : Nat → List Path → List Path
  | 0, names => names
  | i + 1, names => shuffle rand i (swap names (i + 1) (rand (i + 1) % (i + 1)))

def arrayRandomPermutation (rand : Nat → Nat) (n : Nat) : Handler (List Path) := do
  let names ← arrayCopy n 0
  return shuffle rand (n - 1) names

/-- The sending loop of `fileNRead`, with at most `n` names left to look at. -/
def fileNReadLoop (cfg : Config) (fd : Nat) (names : List Path) : (n i : Nat) → Handler Unit
  | 0, _ => return ()
  | n + 1, i => do
      let top ← call (.stackTop .null)
      if i < top then
        match names[i]? with
        | none => abort .stackIndex
        | some name =>
            match ← hashGetFile (.copy name) .src with
            | none => pure ()
            | some f =>
                lock (.file f)
                match fileShortenName (← load f).abspath with
                | none => abort .nullString
                | some nameSent =>
                    writeNB fd (.int (nameSent.length + 1))
                    writeNB fd (.bytes (nameSent ++ [0]))
                    unlock (.file f)
                    sendFile cfg fd f
            fileNReadLoop cfg fd names n (i + 1)

def fileNRead (cfg : Config) (fd : Nat) (fileNum : Int) (rand : Nat → Nat) : Handler Unit := do
  fileStackDefrag
  lock .filestack
  let arrS ← call (.stackTop .null)
  let names ← arrayRandomPermutation rand arrS
  unlock .filestack
  let fileNum ← if fileNum = 0 then (do return ((← call (.stackTop .null)) : Int)) else pure fileNum
  fileNReadLoop cfg fd names fileNum.toNat 0
  writeNB fd (.int 0)

/-! ## Requests -/

inductive Request where
  | fileRead (path : Path) (pid : Pid)
  | fileNRead (fileNum : Int) (rand : Nat → Nat)
  | fileWrite (path : Path) (pid : Pid) (fileSize : Nat) (data : List UInt8)
  | fileAppend (path : Path) (pid : Pid) (appendSize : Nat) (data : List UInt8)
  | fileOpen (path : Path) (pid : Pid)
  | fileClose (path : Path) (pid : Pid)
  | fileDelete (path : Path) (pid : Pid)
  | fileLock
  | fileUnlock
  | fileSearch (path : Path)
  | fileInit (path : Path)

/-- `ReqFunArr`. -/
def handle (cfg : Config) (fuel fd : Nat) : Request → Handler Unit
  | .fileRead path pid => fileRead cfg fd path pid
  | .fileNRead fileNum rand => fileNRead cfg fd fileNum rand
  | .fileWrite path pid fileSize data => fileWrite cfg fuel fd path pid fileSize data
  | .fileAppend path pid appendSize data => fileAppend cfg fuel fd path pid appendSize data
  | .fileOpen path pid => fileOpen fd path pid
  | .fileClose path pid => fileClose fd path pid
  | .fileDelete path pid => fileDelete fd path pid
  | .fileLock => pure ()
  | .fileUnlock => pure ()
  | .fileSearch path => do let _ ← fileSearch fd path
  | .fileInit path => fileInit fd path

end FileServer
