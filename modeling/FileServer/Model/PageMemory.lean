import FileServer.Model.FileMemory
import FileServer.Blocks

/-!
# One write into the page memory

`addPageToMem` with `c_page_size` any `size_t`, on the blocks of `FileMemory.memPtr` and the record
of one file.
-/

namespace FileServer
namespace PageMemory

/-- `memcpy(memPtr[index] + offset, input, size)`. -/
def memcpy (memPtr : Nat → List UInt8) (index : Nat) (offset : Int) (input : List UInt8)
    (size : Nat) : Outcome Fault (Nat → List UInt8) :=
  if input.length < size then .fault .inputBounds
  else if size ≠ 0 ∧ (offset < 0 ∨ ((memPtr index).length : Int) < offset + size) then
    .fault .pageBounds
  else .ok (Function.update memPtr index
    (overwrite (memPtr index) offset.toNat (input.take size)))

def addPageToMem (pageSize : Nat) (memPtr : Nat → List UInt8) (file : MemFile)
    (input : List UInt8) (pageInd size : Nat) (offset : Int) :
    Outcome Fault (Int × (Nat → List UInt8)) :=
  if sizeT (pageSize - offset) < size then .ok (-1, memPtr)
  else match file.pages[pageInd]? with
    | none => .fault .pageIndex
    | some index => (memcpy memPtr index offset input size).andThen fun memPtr => .ok (0, memPtr)

end PageMemory

end FileServer
