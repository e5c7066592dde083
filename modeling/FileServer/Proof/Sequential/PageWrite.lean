import FileServer.Model.PageMemory
import FileServer.Proof.Sequential.Transfer

/-!
# The bounds check of a page write

`page_size - offset` is computed in `size_t`, so that it is exact only for an offset inside the page.
-/

namespace FileServer

namespace PageMemory

/-- The bytes `offset..offset+size-1` of the block `index` are those of `input`; all others are as
before. -/
def WroteOnly (memPtr : Nat → List UInt8) (index : Nat) (offset : Int) (input : List UInt8)
    (size : Nat) (memPtr' : Nat → List UInt8) : Prop :=
  ∀ page k : Nat, (memPtr' page)[k]? =
    if page = index ∧ offset ≤ k ∧ (k : Int) < offset + size then input[(k - offset).toNat]?
    else (memPtr page)[k]?

/-- The call returns, with 0 exactly for a write inside the page, and then writes just these bytes;
with -1 it writes nothing. -/
def BoundedWrite (pageSize : Nat) (memPtr : Nat → List UInt8) (file : MemFile)
    (input : List UInt8) (pageInd size : Nat) (offset : Int) : Prop :=
  ∃ ret memPtr', addPageToMem pageSize memPtr file input pageInd size offset = .ok (ret, memPtr') ∧
    (ret = 0 ↔ 0 ≤ offset ∧ offset + size ≤ pageSize) ∧
    (ret = 0 → ∃ index, file.pages[pageInd]? = some index ∧
      WroteOnly memPtr index offset input size memPtr') ∧
    (ret ≠ 0 → ret = -1 ∧ memPtr' = memPtr)

section
variable {pageSize : Nat} {memPtr : Nat → List UInt8} {file : MemFile} {input : List UInt8}
  {index pageInd size : Nat} {offset : Int}

theorem getElem?_overwrite_eq (xs ys : List UInt8) {k : Nat} (inside : k + ys.length ≤ xs.length)
    (n : Nat) : (overwrite xs k ys)[n]? =
      if k ≤ n ∧ n < k + ys.length then ys[n - k]? else xs[n]? := by
  have start : (xs.take k).length = k := List.length_take_of_le (by omega)
  unfold overwrite
  rw [List.append_assoc]
  by_cases before : n < k
  · rw [List.getElem?_append_left (by omega), List.getElem?_take_of_lt before, if_neg (by omega)]
  · rw [List.getElem?_append_right (by omega), start]
    by_cases within : n < k + ys.length
    · rw [List.getElem?_append_left (by omega), if_pos ⟨by omega, within⟩]
    · rw [List.getElem?_append_right (by omega), List.getElem?_drop, if_neg (by omega)]
      congr 1
      omega

theorem wroteOnly_overwrite (start : 0 ≤ offset) (inside : offset.toNat + size ≤ (memPtr index).length)
    (enough : size ≤ input.length) :
    WroteOnly memPtr index offset input size (Function.update memPtr index
      (overwrite (memPtr index) offset.toNat (input.take size))) := by
  have length : (input.take size).length = size := List.length_take_of_le enough
  intro page k
  by_cases same : page = index
  · subst same
    rw [Function.update_self, getElem?_overwrite_eq _ _ (by rw [length]; exact inside), length]
    by_cases within : offset ≤ k ∧ (k : Int) < offset + size
    · have index : (k - offset).toNat = k - offset.toNat := by omega
      rw [if_pos (by omega), if_pos ⟨rfl, within⟩, index, List.getElem?_take_of_lt (by omega)]
    · rw [if_neg (by omega), if_neg fun h => within h.2]
  · have other : ¬(page = index ∧ offset ≤ k ∧ (k : Int) < offset + size) := fun h => same h.1
    rw [Function.update_of_ne same, if_neg other]

theorem memcpy_inside (start : 0 ≤ offset) (inside : offset + size ≤ (memPtr index).length)
    (enough : size ≤ input.length) :
    memcpy memPtr index offset input size = .ok (Function.update memPtr index
      (overwrite (memPtr index) offset.toNat (input.take size))) := by
  unfold memcpy
  rw [if_neg (by omega), if_neg (by omega)]

theorem memcpy_outside (outside : ¬(0 ≤ offset ∧ offset + size ≤ (memPtr index).length))
    (some : size ≠ 0) (enough : size ≤ input.length) : memcpy memPtr index offset input size = .fault .pageBounds := by
  unfold memcpy
  rw [if_neg (by omega), if_pos (by omega)]

/-! ## The two outcomes -/

theorem addPageToMem_refused (small : sizeT (pageSize - offset) < size) :
    addPageToMem pageSize memPtr file input pageInd size offset = .ok (-1, memPtr) := by
  unfold addPageToMem
  rw [if_pos small]

theorem addPageToMem_copies (large : ¬sizeT (pageSize - offset) < size)
    (found : file.pages[pageInd]? = some index) :
    addPageToMem pageSize memPtr file input pageInd size offset =
      (memcpy memPtr index offset input size).andThen fun memPtr => .ok (0, memPtr) := by
  unfold addPageToMem
  rw [if_neg large]
  simp only [found]

theorem room_eq (sizeTPage : pageSize < 2 ^ 64) (start : 0 ≤ offset) (inside : offset ≤ pageSize) :
    (sizeT (pageSize - offset) : Int) = pageSize - offset := by
  unfold sizeT
  omega

theorem boundedWrite_refused (small : sizeT (pageSize - offset) < size)
    (outside : ¬(0 ≤ offset ∧ offset + size ≤ pageSize)) :
    BoundedWrite pageSize memPtr file input pageInd size offset := by
  refine ⟨-1, memPtr, addPageToMem_refused small, ?_, ?_, ?_⟩
  · simp [outside]
  · simp
  · simp

theorem boundedWrite_copies (large : ¬sizeT (pageSize - offset) < size)
    (found : file.pages[pageInd]? = some index) (sized : (memPtr index).length = pageSize)
    (enough : size ≤ input.length) (start : 0 ≤ offset) (inside : offset + size ≤ pageSize) :
    BoundedWrite pageSize memPtr file input pageInd size offset := by
  have copied := memcpy_inside start (by rw [sized]; exact inside) enough
  refine ⟨0, Function.update memPtr index
    (overwrite (memPtr index) offset.toNat (input.take size)), ?_, ?_, ?_, ?_⟩
  · rw [addPageToMem_copies large found, copied]
    rfl
  · simp [start, inside]
  · intro _
    exact ⟨index, found, wroteOnly_overwrite start (by omega) enough⟩
  · simp

theorem not_boundedWrite (large : ¬sizeT (pageSize - offset) < size)
    (found : file.pages[pageInd]? = some index) (sized : (memPtr index).length = pageSize)
    (enough : size ≤ input.length) (outside : ¬(0 ≤ offset ∧ offset + size ≤ pageSize)) :
    ¬BoundedWrite pageSize memPtr file input pageInd size offset := by
  intro ⟨ret, memPtr', ends, inside, _⟩
  rw [addPageToMem_copies large found] at ends
  by_cases none : size = 0
  · obtain ⟨_, _, same⟩ := Outcome.andThen_eq_ok.mp ends
    cases same
    exact outside (inside.mp rfl)
  · rw [memcpy_outside (by rw [sized]; exact outside) none enough] at ends
    cases ends

end

/-- The check is right for an offset inside the page; for any other, only when the wrapped difference
happens to be below the size. -/
theorem boundedWrite_iff {pageSize : Nat} {memPtr : Nat → List UInt8} {file : MemFile}
    {input : List UInt8} {pageInd size : Nat} {offset : Int} (sizeTPage : pageSize < 2 ^ 64)
    (bound : pageInd < file.pagesN) (array : file.pages.length = file.pagesN)
    (sized : ∀ index ∈ file.pages, (memPtr index).length = pageSize) (enough : size ≤ input.length) :
    BoundedWrite pageSize memPtr file input pageInd size offset ↔
      (0 ≤ offset ∧ offset ≤ pageSize) ∨ sizeT (pageSize - offset) < size := by
  obtain ⟨index, found⟩ : ∃ index, file.pages[pageInd]? = some index :=
    ⟨_, List.getElem?_eq_getElem (array ▸ bound)⟩
  have page := sized index (List.mem_of_getElem? found)
  by_cases small : sizeT (pageSize - offset) < size
  · have outside : ¬(0 ≤ offset ∧ offset + size ≤ pageSize) := by
      intro ⟨start, inside⟩
      have room := room_eq sizeTPage start (by omega)
      omega
    simp [small, boundedWrite_refused small outside]
  · by_cases inside : 0 ≤ offset ∧ offset ≤ pageSize
    · have room := room_eq sizeTPage inside.1 inside.2
      simp [inside, boundedWrite_copies small found page enough inside.1 (by omega)]
    · have outside : ¬(0 ≤ offset ∧ offset + size ≤ pageSize) := by omega
      simp [small, inside, not_boundedWrite small found page enough outside]

/-- One byte put 1 byte behind a page of 4 bytes: the difference wraps, nothing is refused. -/
theorem boundedWrite_behind : ¬BoundedWrite 4 (fun _ => [1, 2, 3, 4]) ⟨[0], 1, [], 4, []⟩ [9] 0 1 5 := by
  intro ⟨ret, memPtr', ends, _⟩
  exact absurd ends (by simp [addPageToMem, memcpy, sizeT])

theorem boundedWrite_iff_example :
    (BoundedWrite 4 (fun _ => [1, 2, 3, 4]) ⟨[0], 1, [], 4, []⟩ [9, 8] 0 2 1 ↔
      (0 ≤ (1 : Int) ∧ (1 : Int) ≤ (4 : Nat)) ∨ sizeT ((4 : Nat) - 1) < 2) :=
  boundedWrite_iff (by decide) (by decide) rfl (by simp) (by decide)

end PageMemory

/-! ## The function of the worker threads -/

theorem server_memcpy {W : Type} {s : Server W} {index size : Nat} {offset : Int}
    {input : List UInt8} (inMemory : index < s.store.pageN) :
    s.memcpy index offset input size =
      (PageMemory.memcpy s.store.memPtr index offset input size).andThen
        fun memPtr => .ok (s.setMem memPtr) := by
  dsimp only [Server.memcpy, PageMemory.memcpy]
  by_cases short : input.length < size
  · rw [if_pos short, if_pos short]
    rfl
  · have length : (input.take size).length = size := List.length_take_of_le (by omega)
    have known : ¬s.store.pageN ≤ index := by omega
    rw [if_neg short, if_neg short]
    simp only [known, false_or]
    split
    · rfl
    · simp only [overwrite, length, Outcome.andThen_ok]
      rfl

/-- A worker's call is the one above on the memory of its store. -/
theorem run_addPageToMem_eq {W : Type} {cfg : Config} {w : W} {s : Server W} {f : FileId}
    {file : MemFile} {input : List UInt8} {pageInd size : Nat} {offset : Int}
    (found : s.store.files f = some file) (inMemory : ∀ page ∈ file.pages, page < s.store.pageN) :
    (server W cfg).run w (addPageToMem cfg input f pageInd size offset) s =
      (PageMemory.addPageToMem cfg.pageSize s.store.memPtr file input pageInd size offset).andThen
        fun (ret, memPtr) => .ok (ret, s.setMem memPtr) := by
  unfold addPageToMem PageMemory.addPageToMem
  by_cases small : sizeT (cfg.pageSize - offset) < size
  · rw [if_pos small, if_pos small]
    rfl
  · rw [if_neg small, if_neg small, Machine.run_bind_of (run_load found), if_neg (by omega)]
    simp only [Int.toNat_natCast]
    cases page : file.pages[pageInd]? with
    | none => rfl
    | some index =>
        have index_lt : index < s.store.pageN := inMemory index (List.mem_of_getElem? page)
        have copied := @server_memcpy W s index size offset input index_lt
        show (server W cfg).run w (call (.memcpy index offset input size) >>= fun _ => pure 0) s = _
        rw [Machine.run_bind, run_call]
        show ((s.memcpy index offset input size).andThen _).andThen _ = _
        rw [copied]
        cases copy : PageMemory.memcpy s.store.memPtr index offset input size <;> simp [copy]

end FileServer
