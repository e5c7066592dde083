import FileServer.DoublyLinked
import FileServer.Model.Store

/-!
# The hash table on the heap

`DL_List` and the functions of the hash table in `FileMemory.c` over the cells and entries that they
allocate and free. `none` as a result is an access outside of them.
-/

namespace FileServer

abbrev Addr := Nat

abbrev DLCells := Cells Addr (Option Addr)

/-- The cells and `HashEntry` records that are allocated, and the heads of the lists. -/
structure HashTable where
  cells : DLCells
  entries : Addr → Option HashEntry
  table : List (Option Addr)

/-- `new` is what `malloc` returns; the result is `*list` after the call. -/
def dlListAdd (cells : DLCells) (list : Option Addr) (data : Option Addr) (new : Addr) :
    Option (Option Addr × DLCells) :=
  let cells := cells.put new ⟨data, none, none⟩
  match list with
  | none => some (some new, cells)
  | some head => do
      let cells ← cells.setNext new (some head)
      let cells ← cells.setPrev head (some new)
      return (some new, cells)

/-- The data, and `*list` after the call. -/
def dlListTake (cells : DLCells) (list : Option Addr) (flag : Flag) :
    Option (Option Addr × Option Addr × DLCells) :=
  match list with
  | none => some (none, none, cells)
  | some a => do
      let cell ← cells a
      match flag with
      | .src => return (cell.data, list, cells)
      | .del => match cell.prev with
        | some before => do
            let beforeCell ← cells before
            let next ← beforeCell.next
            let nextCell ← cells next
            let cells ← cells.setNext before nextCell.next
            let after ← nextCell.next
            let cells ← cells.setPrev after (some before)
            return (cell.data, some before, cells.free a)
        | none => do
            let cells ← cells.setPrevOf cell.next none
            return (cell.data, cell.next, cells.free a)

/-- On `NULL` it returns -1 and does nothing. -/
def dlListDeleteCell (cells : DLCells) (listCell : Option Addr) : Option DLCells :=
  match listCell with
  | none => some cells
  | some aux => do
      let auxCell ← cells aux
      let before ← auxCell.prev
      let beforeCell ← cells before
      let next ← beforeCell.next
      let nextCell ← cells next
      let cells ← cells.setNext before nextCell.next
      let cells ← cells.setPrevOf nextCell.next (some before)
      return cells.free aux

def hashTbMake (size : Nat) : HashTable where
  cells _ := none
  entries _ := none
  table := List.replicate size none

/-- The record, which is looked at only when the keys agree. -/
def HashEntry.candidate (entry : HashEntry) (files : FileId → Option MemFile) (key : Nat) :
    Option (Option MemFile) :=
  if key = entry.key then (files entry.data).map some else some none

namespace HashTable

/-- `entry` and `cell` are what `malloc` returns. -/
def hashTbAdd (t : HashTable) (size : Nat) (data : FileId) (key : Nat) (entry cell : Addr) :
    Option HashTable := do
  let pos := key % size
  let entries := Function.update t.entries entry (some ⟨data, key⟩)
  let list ← t.table[pos]?
  let (list, cells) ← dlListAdd t.cells list (some entry) cell
  return { cells, entries, table := t.table.set pos list }

/-- What `hashTbSearch` does with the cell `hlist` that it found, if the flag is `DEL`. -/
def removeFound (t : HashTable) (pos : Nat) (hlist found : Addr) (isHead : Bool) : Option HashTable := do
  let t ← if isHead then do
      let aux ← (← t.table[pos]?)
      let auxCell ← t.cells aux
      let table := t.table.set pos auxCell.next
      let cells ← t.cells.setPrevOf auxCell.next none
      some { t with table, cells := cells.free aux }
    else do
      let cells ← dlListDeleteCell t.cells (some hlist)
      some { t with cells }
  return { t with entries := Function.update t.entries found none }

/-- The loop of `hashTbSearch`. A result is reached when `fuel` is more than the turns it takes. -/
def searchLoop (t : HashTable) (files : FileId → Option MemFile) (pathName : Path) (flag : Flag)
    (key pos : Nat) : (fuel : Nat) → (hlist : Option Addr) → (isHead : Bool) →
    Option (Option FileId × HashTable)
  | 0, _, _ => none
  | _ + 1, none, _ => some (none, t)
  | fuel + 1, some hlist, isHead => do
      let (data, _, _) ← dlListTake t.cells (some hlist) .src
      match data with
      | none => return (none, t)
      | some found => do
          let entry ← t.entries found
          let file ← entry.candidate files key
          if file.any fun file => strncmpEq pathName file.abspath then
            let t ← match flag with
              | .del => t.removeFound pos hlist found isHead
              | .src => some t
            return (some entry.data, t)
          else
            let cell ← t.cells hlist
            t.searchLoop files pathName flag key pos fuel cell.next false

/-- A `path_name` other than `NULL`. -/
def hashTbSearch (t : HashTable) (size : Nat) (files : FileId → Option MemFile) (fuel : Nat)
    (pathName : Path) (flag : Flag) : Option (Option FileId × HashTable) := do
  let key := hashKey pathName
  let pos := key % size
  let hlist ← t.table[pos]?
  t.searchLoop files pathName flag key pos fuel hlist true

end HashTable

end FileServer
