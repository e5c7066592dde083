import FileServer.Model.Store

/-!
# The stack of file names on the heap

`fileStackDefrag` over the strings that the cells of the stack point to.
-/

namespace FileServer

/-- `strings` are the allocated ones. -/
structure NameArray where
  strings : Nat → Option Path
  max : Nat
  top : Nat
  stack : List (Option Nat)

namespace NameArray

/-- A string is freed while it is allocated. -/
def free (s : NameArray) (p : Nat) : Option NameArray :=
  (s.strings p).map fun _ => { s with strings := Function.update s.strings p none }

def setCell (s : NameArray) (i : Nat) (cell : Option Nat) : NameArray :=
  { s with stack := s.stack.set i cell }

/-- `strncmp(stack->stack[i], stack->stack[j], _POSIX_PATH_MAX) == 0`. -/
def sameName (s : NameArray) (i j : Nat) : Option Bool := do
  let p ← (← s.stack[i]?)
  let q ← (← s.stack[j]?)
  return strncmpEq (← s.strings p) (← s.strings q)

/-- The inner loop for cell `i`, with `n` cells left from `j` on. -/
def dedupLoop (s : NameArray) (i : Nat) : (n j : Nat) → Option NameArray
  | 0, _ => some s
  | n + 1, j => do
      match ← s.stack[j]? with
      | none => s.dedupLoop i n (j + 1)
      | some q =>
          if ← s.sameName i j then
            let freed ← s.free q
            (freed.setCell j none).dedupLoop i n (j + 1)
          else s.dedupLoop i n (j + 1)

/-- The outer loop, with `n` cells left from `i` on; `search` is `hashTbSearch` with `SRC`. -/
def defragLoop (s : NameArray) (search : Path → Outcome Fault (Option FileId)) :
    (n i last : Nat) → Option (NameArray × Nat)
  | 0, _, last => some (s, last)
  | n + 1, i, last => do
      match ← s.stack[i]? with
      | none => s.defragLoop search n (i + 1) last
      | some p =>
          let s ← s.dedupLoop i n (i + 1)
          match search (← s.strings p) with
          | .ok (some _) =>
              let copied := s.setCell last (some p)
              let moved := if last < i then copied.setCell i none else copied
              moved.defragLoop search n (i + 1) (last + 1)
          | .ok none =>
              let freed ← s.free p
              (freed.setCell i none).defragLoop search n (i + 1) last
          | _ => none

def fileStackDefrag (s : NameArray) (search : Path → Outcome Fault (Option FileId)) :
    Option NameArray := do
  let (s, last) ← s.defragLoop search s.max 0 0
  return { s with top := last }

end NameArray

end FileServer
