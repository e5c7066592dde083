import FileServer.Model.Operations

/-!
# `FileMemory.c`

The functions that take mutexes, each with the calls of its source in their order. A loop that the
source can repeat without bound takes the number of its iterations as `fuel`; running out of it is
`spin`.
-/

namespace FileServer

def lock (m : Mutex) : Handler Unit := call (.lock m)
def unlock (m : Mutex) : Handler Unit := call (.unlock m)
def load (f : FileId) : Handler MemFile := call (.load f)
def store (f : FileId) (field : FieldWrite) : Handler Unit := call (.store f field)
def writeNB (fd : Nat) (msg : Msg) : Handler Unit := call (.writeNB fd msg)
def abort {α : Type} (e : Fault) : Handler α := .op (.abort e) fun x => x.elim
def spin {α : Type} : Handler α := .op .spin fun x => x.elim

def deref : Option FileId → Handler FileId
  | some f => pure f
  | none => abort .nullFile

def pageAdd (page : Nat) : Handler Unit := do
  lock .pages
  call (.pageAdd page)
  unlock .pages

def pageTake : Handler (Option Nat) := do
  lock .pages
  let page ← call .pageTake
  unlock .pages
  return page

def hashGetFile (abspath : CStr) (flag : Flag) : Handler (Option FileId) := do
  lock .hashTB
  let file ← call (.hashTbSearch abspath flag)
  unlock .hashTB
  return file

/-- The outer loop of `fileStackDefrag`, with `n` cells left to visit; returns `last`. -/
def fileStackDefragLoop : (n i last : Nat) → Handler Nat
  | 0, _, last => return last
  | n + 1, i, last => do
      match ← call (.stackDedup i) with
      | none => fileStackDefragLoop n (i + 1) last
      | some name =>
          match ← hashGetFile (.buf name) .src with
          | some _ =>
              call (.stackMove last i)
              fileStackDefragLoop n (i + 1) (last + 1)
          | none =>
              call (.stackClear i)
              fileStackDefragLoop n (i + 1) last

def fileStackDefrag : Handler Unit := do
  lock .filestack
  let max ← call .stackMax
  let last ← fileStackDefragLoop max 0 0
  call (.stackSetTop last)
  unlock .filestack

def fileStackAdd (filePath : CStr) : Handler Unit := do
  lock .filestack
  let top ← call (.stackTop .null)
  let max ← call .stackMax
  if top = max then fileStackDefrag
  call (.stackPush filePath)
  unlock .filestack

def fileStackGetTop (filePath : CStr) : Handler (Option FileId) := do
  let top ← call (.stackTop filePath)
  if top = 0 then return none
  lock .hashTB
  let found ← call (.stackGetTop filePath)
  unlock .hashTB
  return some found

/-- Entries `i, i+1, ...` of a freed record's page array go back to the page list. -/
def pageAddAll : List Nat → Handler Unit
  | [] => return ()
  | page :: pages => do
      pageAdd page
      pageAddAll pages

def fileFree (f : FileId) : Handler Unit := do
  let file ← call (.free f)
  if file.pages.length < file.pagesN then abort .pageIndex
  pageAddAll (file.pages.take file.pagesN)

def fileDeleteFIFO (fileStr : CStr) : Handler Int := do
  lock .filestack
  match ← fileStackGetTop fileStr with
  | none =>
      unlock .filestack
      return -1
  | some toDel =>
      lock (.file toDel)
      let _ ← hashGetFile (.abspath toDel) .del
      unlock (.file toDel)
      unlock .filestack
      fileFree toDel
      return 0

def fileNDecrease : Handler Unit := do
  lock .fileN
  call .fileNDecrease
  unlock .fileN

def fileNUpdate (nMax : Nat) : Handler Int := do
  lock .fileN
  let ret ← do
    if ← call (.fileNIncrease nMax) then pure 1
    else fileDeleteFIFO .null
  unlock .fileN
  return ret

/-- The `while` loop of `pageGet`. -/
def pageGetLoop (fileStr : CStr) : (fuel : Nat) → Handler Nat
  | 0 => spin
  | fuel + 1 => do
      let deleted ← fileDeleteFIFO fileStr
      if deleted ≠ -1 then fileNDecrease
      match ← pageTake with
      | some page => return page
      | none => pageGetLoop fileStr fuel

/-- The end of a turn of the loop. -/
def pageRetry (fileStr : CStr) (fuel : Nat) : Handler Nat := do
  match ← pageTake with
  | some page => return page
  | none => pageGetLoop fileStr fuel

theorem pageGetLoop_succ (fileStr : CStr) (fuel : Nat) : pageGetLoop fileStr (fuel + 1) = (do
    let deleted ← fileDeleteFIFO fileStr
    if deleted ≠ -1 then fileNDecrease
    pageRetry fileStr fuel) := rfl

def pageGet (fuel : Nat) (fileStr : CStr) : Handler Nat := do
  match ← pageTake with
  | some page => return page
  | none => pageGetLoop fileStr fuel

def filePagesFill (fuel : Nat) (f : FileId) : (n : Nat) → Handler Unit
  | 0 => return ()
  | n + 1 => do
      let page ← pageGet fuel (.abspath f)
      store f (.pagesFill page)
      filePagesFill fuel f n

def pagesFor (cfg : Config) (size : Nat) : Nat :=
  if 0 < size % cfg.pageSize then size / cfg.pageSize + 1 else size / cfg.pageSize

def filePagesInitialize (cfg : Config) (fuel : Nat) (f : FileId) : Handler Unit := do
  let size := (← load f).size
  let n := pagesFor cfg size
  store f (.pagesN n)
  store f .pagesAlloc
  filePagesFill fuel f n

/-- The pages `filePagesRenew` adds, in the order of the array. -/
def filePagesExtra (fuel : Nat) (f : FileId) : (n : Nat) → Handler (List Nat)
  | 0 => return []
  | n + 1 => do
      let page ← pageGet fuel (.abspath f)
      let pages ← filePagesExtra fuel f n
      return page :: pages

def filePagesRenew (fuel : Nat) (f : FileId) (dim : Int) : Handler Unit := do
  let file ← load f
  if dim ≤ file.pagesN then return ()
  if file.pages.length < file.pagesN then abort .pageIndex
  let extra ← filePagesExtra fuel f (dim.toNat - file.pagesN)
  store f (.pagesRenew dim.toNat (file.pages.take file.pagesN ++ extra))

def addPageToMem (cfg : Config) (input : List UInt8) (f : FileId) (pageInd : Int) (size : Nat)
    (offset : Int) : Handler Int := do
  if sizeT (cfg.pageSize - offset) < size then return -1
  let file ← load f
  if pageInd < 0 then abort .pageIndex
  match file.pages[pageInd.toNat]? with
  | none => abort .pageIndex
  | some index =>
      call (.memcpy index offset input size)
      return 0

end FileServer
