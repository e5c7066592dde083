import FileServer.Program.Machine
import Mathlib.Algebra.Order.Ring.Int
import Mathlib.Data.List.Basic
import Mathlib.Logic.Function.Basic

/-!
# The server's store

The data of `FileMemory.h` and the functions of `FileMemory.c` that touch it without taking a
mutex. A `MemFile*` is a `FileId`; a freed record is one whose `files` entry is `none`.
-/

namespace FileServer

/-! ## C arithmetic -/

def cInt (x : Int) : Int := Int.bmod x (2 ^ 32)

/-- Conversion to `size_t` or `unsigned long`. -/
def sizeT (x : Int) : Nat := (x % 2 ^ 64).toNat

def cChar (c : UInt8) : Int := Int.bmod c.toNat (2 ^ 8)

def posixPathMax : Nat := 256

/-! ## Configuration -/

/-- What `configGetAll` loads. The sizes are products computed in `int`, the memory size a number of
MiB; `fileStackInit` computes `file_max * 2` in `int`. -/
structure Config where
  serverMemorySize : Nat
  pageSize : Nat
  fileMax : Nat
  fileHashTbSize : Nat
  pageSize_pos : 0 < pageSize
  pageSize_lt : pageSize < 2 ^ 31
  fileMax_pos : 0 < fileMax
  fileMax_lt : fileMax < 2 ^ 30
  fileHashTbSize_pos : 0 < fileHashTbSize
  serverMemorySize_le : serverMemorySize ≤ 2 ^ 31 - 2 ^ 20

/-! ## Data -/

/-- The bytes of a C string before its terminating NUL. -/
abbrev Path := List UInt8
abbrev Pid := Int
abbrev FileId := Nat

structure MemFile where
  pages : List Nat
  pagesN : Nat
  abspath : Path
  size : Nat
  clientsOpened : List Pid
deriving DecidableEq, Repr

structure HashEntry where
  data : FileId
  key : Nat
deriving DecidableEq, Repr

structure FileStack where
  max : Nat
  top : Nat
  stack : List (Option Path)
deriving DecidableEq, Repr

/-- `FileMemory`, `FileHashTb` and `FStack`, with the heap of `MemFile` records; `next` is the
identity the next `malloc(sizeof(MemFile))` returns. -/
structure Store where
  memPtr : Nat → List UInt8
  pageN : Nat
  fileN : Int
  pages : List Nat
  table : List (List HashEntry)
  fstack : FileStack
  files : FileId → Option MemFile
  next : FileId

/-- The ways in which an access leaves the objects of the program. -/
inductive Fault where
  | nullFile
  | deadFile (f : FileId)
  | pageIndex
  | pageBounds
  | inputBounds
  | stackIndex
  | nullString
deriving DecidableEq, Repr

inductive Flag where
  | src
  | del
deriving DecidableEq, Repr

/-! ## Strings and the hash table -/

/-- `strncmp(s, t, _POSIX_PATH_MAX) == 0`. -/
def strncmpEq (s t : Path) : Bool := s.take posixPathMax == t.take posixPathMax

def hashKeyFrom : Nat → Nat → Path → Nat
  | _, key, [] => key
  | incr, key, c :: str => hashKeyFrom (incr + 1) (sizeT (key + cChar c * incr * 32)) str

def hashKey (str : Path) : Nat := hashKeyFrom 1 0 str

/-- The walk of `hashTbSearch` along one list: the record found and the list without its cell. -/
def searchBucket (files : FileId → Option MemFile) (key : Nat) (path : Path) :
    List HashEntry → Outcome Fault (Option (FileId × List HashEntry))
  | [] => .ok none
  | entry :: rest =>
      let onward := (searchBucket files key path rest).andThen fun found =>
        .ok (found.map fun (f, others) => (f, entry :: others))
      if key = entry.key then
        match files entry.data with
        | none => .fault (.deadFile entry.data)
        | some file => if strncmpEq path file.abspath then .ok (some (entry.data, rest)) else onward
      else onward

namespace Store

def hashTbPos (cfg : Config) (path : Path) : Nat := hashKey path % cfg.fileHashTbSize

def hashTbSearch (cfg : Config) (σ : Store) (path : Path) (flag : Flag) :
    Outcome Fault (Option FileId × Store) :=
  let pos := hashTbPos cfg path
  (searchBucket σ.files (hashKey path) path (σ.table.getD pos [])).andThen fun
    | none => .ok (none, σ)
    | some (f, others) => match flag with
        | .src => .ok (some f, σ)
        | .del => .ok (some f, { σ with table := σ.table.set pos others })

def hashTbAdd (cfg : Config) (σ : Store) (f : FileId) (file : MemFile) : Store :=
  let pos := hashTbPos cfg file.abspath
  { σ with table := σ.table.set pos (⟨f, hashKey file.abspath⟩ :: σ.table.getD pos []) }

def recorded (σ : Store) : List FileId := σ.table.flatten.map HashEntry.data

end Store

/-! ## The stack of file names -/

def fileStackInit (size : Nat) : FileStack :=
  ⟨size * 2 - 1, 0, List.replicate (size * 2 - 1) none⟩

namespace FileStack

/-- The downward scan of `fileStackGetTop` over the `n` lowest cells. The source goes on below
cell 0 when no recorded name is left. -/
def scanDown (search : Path → Outcome Fault (Option FileId)) (stack : List (Option Path)) :
    Nat → Outcome Fault (Nat × FileId)
  | 0 => .fault .stackIndex
  | i + 1 => match stack[i]? with
      | none => .fault .stackIndex
      | some none => scanDown search stack i
      | some (some name) => (search name).andThen fun
          | some f => .ok (i, f)
          | none => scanDown search stack i

/-- `fileStackGetTop` between the lock and the unlock of `hashTB_mutex`. -/
def getTop (search : Path → Outcome Fault (Option FileId)) (s : FileStack)
    (filePath : Option Path) : Outcome Fault (FileId × FileStack) :=
  let fromTop := (scanDown search s.stack s.top).andThen fun (i, f) =>
    .ok (f, { s with top := i, stack := s.stack.set i none })
  match filePath with
  | none => fromTop
  | some path => match s.stack[s.top - 1]? with
      | none => .fault .stackIndex
      | some none => .fault .nullString
      | some (some name) =>
          if strncmpEq name path then
            (scanDown search s.stack (s.top - 1)).andThen fun (i, f) =>
              .ok (f, { s with stack := s.stack.set i none })
          else fromTop

def push (s : FileStack) (name : Path) : Outcome Fault FileStack :=
  if s.top < s.stack.length then
    .ok { s with stack := s.stack.set s.top (some name), top := s.top + 1 }
  else .fault .stackIndex

/-- The inner loop of `fileStackDefrag` for cell `i`: later copies of its name are freed. -/
def dedup (s : FileStack) (i : Nat) (name : Path) : FileStack :=
  { s with stack := s.stack.take (i + 1) ++ (s.stack.drop (i + 1)).map fun cell =>
      if cell.any (strncmpEq name) then none else cell }

def moveCell (s : FileStack) (last i : Nat) : FileStack :=
  let copied := s.stack.set last (s.stack.getD i none)
  { s with stack := if last < i then copied.set i none else copied }

def clearCell (s : FileStack) (i : Nat) : FileStack := { s with stack := s.stack.set i none }

end FileStack

/-! ## Setup -/

/-- Page numbers `0..n-1`, each put in front of the list. -/
def pageListCreate (n : Nat) : List Nat := (List.range n).foldl (fun pages i => i :: pages) []

def memorySetup (cfg : Config) : Store where
  memPtr _ := List.replicate cfg.pageSize 0
  pageN := cfg.serverMemorySize / cfg.pageSize
  fileN := 0
  pages := pageListCreate (cfg.serverMemorySize / cfg.pageSize)
  table := List.replicate cfg.fileHashTbSize []
  fstack := fileStackInit cfg.fileMax
  files _ := none
  next := 0

end FileServer
