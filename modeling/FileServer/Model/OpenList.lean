import FileServer.Model.HashTable

/-!
# The list of a file's clients on the heap

`clientPidDelete` over the cells and the `pid_t` objects that it frees.
-/

namespace FileServer

/-- What is allocated, and `clients_opened` of one record. -/
structure OpenList where
  cells : DLCells
  pids : Addr → Option Pid
  clientsOpened : Option Addr

namespace OpenList

def removeHead (l : OpenList) : Option OpenList := do
  let aux ← l.clientsOpened
  let auxCell ← l.cells aux
  match auxCell.next with
  | some next => do
      let cells ← l.cells.setPrev next none
      return { l with cells, clientsOpened := some next }
  -- The `else` before `free(aux)` makes it the other branch.
  | none => return { l with cells := l.cells.free aux, clientsOpened := none }

/-- What `clientPidDelete` does with the cell `listPtr` that it found. -/
def removeFound (l : OpenList) (listPtr foundPid : Addr) (isHead : Bool) : Option OpenList := do
  let l ← if isHead then l.removeHead else do
    let cells ← dlListDeleteCell l.cells (some listPtr)
    some { l with cells }
  return { l with pids := Function.update l.pids foundPid none }

/-- The loop of `clientPidDelete`. -/
def deleteLoop (l : OpenList) (clientPid : Pid) : (fuel : Nat) → (listPtr : Option Addr) →
    (isHead : Bool) → Option (Int × OpenList)
  | 0, _, _ => none
  | _ + 1, none, _ => some (0, l)
  | fuel + 1, some listPtr, isHead => do
      let (data, _, _) ← dlListTake l.cells (some listPtr) .src
      match data with
      | none => return (0, l)
      | some foundPid => do
          let pid ← l.pids foundPid
          if clientPid = pid then
            let l ← l.removeFound listPtr foundPid isHead
            return (1, l)
          else
            let cell ← l.cells listPtr
            l.deleteLoop clientPid fuel cell.next false

def clientPidDelete (l : OpenList) (fuel : Nat) (clientPid : Pid) : Option (Int × OpenList) :=
  if l.clientsOpened = none then some (0, l)
  else l.deleteLoop clientPid fuel l.clientsOpened true

end OpenList

end FileServer
