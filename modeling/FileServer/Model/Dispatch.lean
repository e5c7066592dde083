import FileServer.CString
import FileServer.Model.Socket

/-!
# Requests as they arrive

`clientReadReq` in `server.c`, and the beginnings of the functions that read a path, on the bytes that a
client sends before it closes the connection. They do not count what `readNB` has read; a byte that has
not arrived is what the memory held before.
-/

namespace FileServer

/-- Memory of `n` bytes into which `readNB` has read. -/
def filled (before : Nat → UInt8) (n : Nat) (input : List UInt8) : List UInt8 :=
  (List.range n).map fun i => input.getD i (before i)

/-- What the variables hold before they are read. -/
structure Uninitialized where
  func : Nat → UInt8
  pathSize : Nat → UInt8
  filePath : Nat → UInt8

def numberOfFunctions : Nat := 11

/-- The client is gone, or a function of `ReqFunArr` is called. -/
inductive Arrived where
  | closed
  | called (func : Int)
deriving DecidableEq, Repr

def Dispatch.clientReadReq (before : Uninitialized) (input : List UInt8) : Arrived :=
  let readN := (input.take 4).length
  if readN = 0 then .closed
  else .called (cInt (ofLeBytes (filled before.func 4 input)))

/-- What becomes of the path of a request. `hashKey` runs past the end of a block without a NUL. -/
inductive PathRead where
  | mallocError
  | path (filePath : Path)
  | overrun
deriving DecidableEq, Repr

/-- The beginning of `fileSearchSilent`, `fileSearch` and `fileInit`. -/
def readFilePath (before : Uninitialized) (input : List UInt8) : PathRead :=
  let pathSize := cInt (ofLeBytes (filled before.pathSize 4 input))
  if pathSize < 0 then .mallocError
  else
    let filePath := filled before.filePath pathSize.toNat (input.drop 4)
    if 0 ∈ filePath then .path (cString filePath) else .overrun

/-- The functions that read a path: all but `fileNRead`, `fileLock` and `fileUnlock`. -/
def readsPath (func : Int) : Bool := func ≠ 1 ∧ func ≠ 7 ∧ func ≠ 8

/-- A worker on the bytes that are still to be read. -/
def fed (W : Type) (cfg : Config) : Machine SocketOp SocketOp.Resp W (List UInt8 × Server W) Fault where
  exec w
    | .readNB n, (input, s) => .ok (input.take n, (input.drop n, s))
    | .server o, (input, s) => (s.exec cfg w o).andThen fun (x, s') => .ok (x, (input, s'))

end FileServer
