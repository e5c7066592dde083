import Mathlib.Data.List.TakeWhile

/-!
# Strings in buffers

The string functions of C on a buffer of bytes. `none` is an access outside of the buffer. A string is
given by its bytes before the NUL.
-/

namespace FileServer

/-- The string that starts where the buffer does. -/
def cString (buffer : List UInt8) : List UInt8 := buffer.takeWhile (· ≠ 0)

def strlen (buffer : List UInt8) : Option Nat :=
  if 0 ∈ buffer then some (cString buffer).length else none

/-- Writes `n` bytes: those of `src`, cut off or filled up with NULs. -/
def strncpy (buffer src : List UInt8) (n : Nat) : Option (List UInt8) :=
  if n ≤ buffer.length then
    some (src.take n ++ List.replicate (n - src.length) 0 ++ buffer.drop n)
  else none

/-- Writes at most `n` bytes of `src` behind the string in the buffer, and then a NUL. -/
def strncat (buffer src : List UInt8) (n : Nat) : Option (List UInt8) := do
  let len ← strlen buffer
  if len + (src.take n).length < buffer.length then
    some (buffer.take len ++ src.take n ++ 0 :: buffer.drop (len + (src.take n).length + 1))
  else none

section
variable {buffer src s rest : List UInt8} {n : Nat}

theorem cString_of_nul (plain : 0 ∉ s) (rest : List UInt8) : cString (s ++ 0 :: rest) = s := by
  unfold cString
  rw [List.takeWhile_append_of_pos fun byte mem => by simpa using ne_of_mem_of_not_mem mem plain]
  simp

theorem strlen_of_nul (plain : 0 ∉ s) (rest : List UInt8) : strlen (s ++ 0 :: rest) = some s.length := by
  simp [strlen, cString_of_nul plain]

theorem strncat_unterminated (plain : 0 ∉ buffer) : strncat buffer src n = none := by
  simp [strncat, strlen, plain]

theorem strncpy_short (short : src.length < buffer.length) :
    strncpy buffer src buffer.length =
      some (src ++ 0 :: List.replicate (buffer.length - src.length - 1) 0) := by
  have filled : buffer.length - src.length = buffer.length - src.length - 1 + 1 :=
    (Nat.sub_add_cancel (Nat.sub_pos_of_lt short)).symm
  unfold strncpy
  rw [if_pos le_rfl, List.take_of_length_le short.le, filled, List.replicate_succ]
  simp

theorem strncpy_long (long : buffer.length ≤ src.length) :
    strncpy buffer src buffer.length = some (src.take buffer.length) := by
  simp [strncpy, Nat.sub_eq_zero_of_le long]

/-- With a bound above the room that is left, the string is appended whole or written past the end. -/
theorem strncat_of_nul (plain : 0 ∉ s) (large : rest.length < n) :
    strncat (s ++ 0 :: rest) src n =
      if src.length ≤ rest.length then some (s ++ src ++ 0 :: rest.drop src.length) else none := by
  have total : (s ++ 0 :: rest).length = s.length + (rest.length + 1) := by simp
  simp only [strncat, strlen_of_nul plain, Option.bind_eq_bind, Option.bind_some, total]
  by_cases fits : src.length ≤ rest.length
  · have whole : src.take n = src := List.take_of_length_le (by omega)
    rw [whole, if_pos fits, if_pos (by omega)]
    simp [List.drop_append, Nat.add_assoc]
  · have tooLong : rest.length < (src.take n).length := by
      rw [List.length_take]
      omega
    rw [if_neg fits, if_neg (by omega)]

end

end FileServer
