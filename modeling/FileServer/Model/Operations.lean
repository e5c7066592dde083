import FileServer.Model.Store
import FileServer.Program.Interleave

/-!
# Operations of the worker threads

The atomic steps of the handlers: mutex calls, the accesses to the shared store that the handlers
make between them, and the bytes written to a client.
-/

namespace FileServer

inductive Mutex where
  | hashTB
  | pages
  | filestack
  | fileN
  | file (f : FileId)
deriving DecidableEq, Repr

/-- A `char*` argument: `NULL`, a buffer of the caller, the `abspath` of a record, or a block of
`_POSIX_PATH_MAX` bytes that `strncpy` has filled. -/
inductive CStr where
  | null
  | buf (path : Path)
  | abspath (f : FileId)
  | copy (path : Path)
deriving DecidableEq, Repr

inductive FieldWrite where
  | size (n : Nat)
  | pagesN (n : Nat)
  | pagesAlloc
  | pagesFill (page : Nat)
  | pagesRenew (dim : Nat) (pages : List Nat)
  | clientsOpened (clients : List Pid)
deriving DecidableEq, Repr

inductive Msg where
  | int (v : Int)
  | sizeT (n : Nat)
  | bytes (data : List UInt8)
deriving DecidableEq, Repr

inductive Op where
  | lock (m : Mutex)
  | unlock (m : Mutex)
  | abort (e : Fault)
  | spin
  | load (f : FileId)
  | store (f : FileId) (field : FieldWrite)
  | newFile (path : Path)
  | free (f : FileId)
  | hashTbAdd (f : FileId)
  | hashTbSearch (path : CStr) (flag : Flag)
  | pageTake
  | pageAdd (page : Nat)
  | memcpy (page : Nat) (offset : Int) (input : List UInt8) (size : Nat)
  | memRead (page : Nat) (size : Nat)
  | fileNIncrease (max : Nat)
  | fileNDecrease
  | stackTop (filePath : CStr)
  | stackGetTop (filePath : CStr)
  | stackMax
  | stackCell (i : Nat)
  | stackPush (name : CStr)
  | stackDedup (i : Nat)
  | stackMove (last i : Nat)
  | stackClear (i : Nat)
  | stackSetTop (top : Nat)
  | writeNB (fd : Nat) (msg : Msg)

abbrev Op.Resp : Op → Type
  | .abort _ | .spin => Empty
  | .load _ | .free _ => MemFile
  | .newFile _ => FileId
  | .hashTbSearch _ _ => Option FileId
  | .pageTake => Option Nat
  | .memRead _ _ => List UInt8
  | .fileNIncrease _ => Bool
  | .stackTop _ | .stackMax => Nat
  | .stackGetTop _ => FileId
  | .stackCell _ | .stackDedup _ => Option Path
  | .lock _ | .unlock _ | .store _ _ | .hashTbAdd _ | .pageAdd _ | .memcpy _ _ _ _
  | .fileNDecrease | .stackPush _ | .stackMove _ _ | .stackClear _ | .stackSetTop _
  | .writeNB _ _ => Unit

/-- The store, the owners of the mutexes and the bytes sent so far, with the descriptor each
message went to. -/
structure Server (W : Type) where
  store : Store
  owner : Mutex → Option W
  sent : List (Nat × Msg)

def MemFile.write (file : MemFile) : FieldWrite → MemFile
  | .size n => { file with size := n }
  | .pagesN n => { file with pagesN := n }
  | .pagesAlloc => { file with pages := [] }
  | .pagesFill page => { file with pages := file.pages ++ [page] }
  | .pagesRenew dim pages => { file with pagesN := dim, pages := pages }
  | .clientsOpened clients => { file with clientsOpened := clients }

namespace Server
variable {W : Type} (cfg : Config)

def onFile {α : Type} (s : Server W) (f : FileId) (k : MemFile → Outcome Fault α) :
    Outcome Fault α :=
  match s.store.files f with
  | none => .fault (.deadFile f)
  | some file => k file

/-- A mutex inside a record is gone with its record. -/
def onMutex {α : Type} (s : Server W) (m : Mutex) (k : Outcome Fault α) : Outcome Fault α :=
  match m with
  | .file f => s.onFile f fun _ => k
  | _ => k

def readStr (s : Server W) : CStr → Outcome Fault (Option Path)
  | .null => .ok none
  | .buf path => .ok (some path)
  | .abspath f => s.onFile f fun file => .ok (some file.abspath)
  -- a path that fills the block leaves no room for its NUL
  | .copy path => if path.length < posixPathMax then .ok (some path) else .fault .inputBounds

def setStore (s : Server W) (σ : Store) : Server W := { s with store := σ }
def setFile (s : Server W) (f : FileId) (file : Option MemFile) : Server W :=
  { s with store := { s.store with files := Function.update s.store.files f file } }
def setOwner (s : Server W) (m : Mutex) (w : Option W) : Server W :=
  { s with owner := Function.update s.owner m w }
def setStack (s : Server W) (stack : FileStack) : Server W :=
  { s with store := { s.store with fstack := stack } }
def send (s : Server W) (fd : Nat) (msg : Msg) : Server W := { s with sent := s.sent ++ [(fd, msg)] }

def memcpy (s : Server W) (page : Nat) (offset : Int) (input : List UInt8) (size : Nat) :
    Outcome Fault (Server W) :=
  let buffer := s.store.memPtr page
  if input.length < size then .fault .inputBounds
  else if s.store.pageN ≤ page ∨ size ≠ 0 ∧ (offset < 0 ∨ (buffer.length : Int) < offset + size) then
    .fault .pageBounds
  else
    let written := buffer.take offset.toNat ++ input.take size ++
      buffer.drop (offset.toNat + size)
    .ok { s with store := { s.store with memPtr := Function.update s.store.memPtr page written } }

def exec (w : W) : (o : Op) → Server W → Outcome Fault (o.Resp × Server W)
  | .lock m, s => s.onMutex m <|
      if s.owner m = none then .ok ((), s.setOwner m (some w)) else .blocked
  | .unlock m, s => s.onMutex m (.ok ((), s.setOwner m none))
  | .abort e, _ => .fault e
  | .spin, _ => .spinning
  | .load f, s => s.onFile f fun file => .ok (file, s)
  | .store f field, s => s.onFile f fun file => .ok ((), s.setFile f (some (file.write field)))
  | .newFile path, s =>
      .ok (s.store.next, { s with store := { s.store with
        files := Function.update s.store.files s.store.next (some ⟨[], 0, path, 0, []⟩)
        next := s.store.next + 1 } })
  | .free f, s => s.onFile f fun file => .ok (file, s.setFile f none)
  | .hashTbAdd f, s => s.onFile f fun file => .ok ((), s.setStore (s.store.hashTbAdd cfg f file))
  | .hashTbSearch path flag, s => (s.readStr path).andThen fun
      | none => .ok (none, s)
      | some path => (s.store.hashTbSearch cfg path flag).andThen fun (f, σ) =>
          .ok (f, s.setStore σ)
  | .pageTake, s => match s.store.pages with
      | [] => .ok (none, s)
      | page :: rest => .ok (some page, s.setStore { s.store with pages := rest })
  | .pageAdd page, s => .ok ((), s.setStore { s.store with pages := page :: s.store.pages })
  | .memcpy page offset input size, s => (s.memcpy page offset input size).andThen fun s' =>
      .ok ((), s')
  | .memRead page size, s =>
      if s.store.pageN ≤ page ∨ (s.store.memPtr page).length < size then .fault .pageBounds
      else .ok ((s.store.memPtr page).take size, s)
  | .fileNIncrease max, s =>
      if (max : Int) ≤ s.store.fileN then .ok (false, s)
      else .ok (true, s.setStore { s.store with fileN := s.store.fileN + 1 })
  | .fileNDecrease, s => .ok ((), s.setStore { s.store with fileN := s.store.fileN - 1 })
  | .stackTop _, s => .ok (s.store.fstack.top, s)
  | .stackGetTop filePath, s => (s.readStr filePath).andThen fun path =>
      let search name := (s.store.hashTbSearch cfg name .src).andThen fun (f, _) => .ok f
      (s.store.fstack.getTop search path).andThen fun (f, stack) => .ok (f, s.setStack stack)
  | .stackMax, s => .ok (s.store.fstack.max, s)
  | .stackCell i, s => match s.store.fstack.stack[i]? with
      | none => .fault .stackIndex
      | some cell => .ok (cell, s)
  | .stackPush name, s => (s.readStr name).andThen fun
      | none => .fault .nullString
      | some name => (s.store.fstack.push name).andThen fun stack => .ok ((), s.setStack stack)
  | .stackDedup i, s => match s.store.fstack.stack[i]? with
      | none => .fault .stackIndex
      | some none => .ok (none, s)
      | some (some name) => .ok (some name, s.setStack (s.store.fstack.dedup i name))
  | .stackMove last i, s => .ok ((), s.setStack (s.store.fstack.moveCell last i))
  | .stackClear i, s => .ok ((), s.setStack (s.store.fstack.clearCell i))
  | .stackSetTop top, s => .ok ((), s.setStack { s.store.fstack with top := top })
  | .writeNB fd msg, s => .ok ((), s.send fd msg)

end Server

abbrev Handler (α : Type) := Program Op Op.Resp α

abbrev call (o : Op) : Handler o.Resp := Program.perform o

def server (W : Type) (cfg : Config) : Machine Op Op.Resp W (Server W) Fault where
  exec := Server.exec cfg

def Server.initial (W : Type) (cfg : Config) : Server W := ⟨memorySetup cfg, fun _ => none, []⟩

end FileServer
