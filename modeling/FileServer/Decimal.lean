import Mathlib.Algebra.Order.Ring.Int
import Mathlib.Data.List.TakeWhile

/-!
# Decimal numbers

`strtol` and `atoi` on a string, given by its characters before the NUL.
-/

namespace FileServer

def isSpace (c : Char) : Bool := c = ' ' ∨ '\t' ≤ c ∧ c ≤ '\r'

def digitsValue (digits : List Char) : Nat :=
  digits.foldl (fun n c => 10 * n + (c.toNat - '0'.toNat)) 0

/-- The number in front of the string, or the nearest `long`. -/
def strtol (s : List Char) : Int :=
  match s.dropWhile isSpace with
  | '-' :: s => max (-2 ^ 63) (-digitsValue (s.takeWhile Char.isDigit))
  | '+' :: s => min (2 ^ 63 - 1) (digitsValue (s.takeWhile Char.isDigit))
  | s => min (2 ^ 63 - 1) (digitsValue (s.takeWhile Char.isDigit))

def atoi (s : List Char) : Int := Int.bmod (strtol s) (2 ^ 32)

theorem atoi_lt (s : List Char) : atoi s < 2 ^ 31 := by
  have high := @Int.bmod_lt (strtol s) (2 ^ 32) (by decide)
  exact high

theorem bounds_of_isDigit {c : Char} (digit : c.isDigit) : 48 ≤ c.toNat ∧ c.toNat ≤ 57 := by
  simp only [Char.isDigit, Bool.and_eq_true, decide_eq_true_eq, ge_iff_le, UInt32.le_iff_toNat_le] at digit
  exact digit

theorem not_isSpace_of_isDigit {c : Char} (digit : c.isDigit) : isSpace c = false := by
  have bounds := bounds_of_isDigit digit
  have blank : c ≠ ' ' := fun same => by simp [same] at bounds
  have high : ¬c ≤ '\r' := fun le => by
    have small : c.toNat ≤ 13 := UInt32.le_iff_toNat_le.mp le
    omega
  simp [isSpace, blank, high]

section
variable {digits : List Char}

theorem strtol_digits (decimal : ∀ c ∈ digits, c.isDigit) :
    strtol digits = min (2 ^ 63 - 1) (digitsValue digits : Int) := by
  have all : digits.takeWhile Char.isDigit = digits := List.takeWhile_eq_self_iff.mpr decimal
  have kept : digits.dropWhile isSpace = digits := by
    cases digits with
    | nil => rfl
    | cons c digits =>
        rw [List.dropWhile_cons, not_isSpace_of_isDigit (decimal c List.mem_cons_self)]
        rfl
  have unsigned (c : Char) (rest : List Char) (same : digits = c :: rest) : c ≠ '-' ∧ c ≠ '+' := by
    have digit := decimal c (by simp [same])
    constructor
    · rintro rfl
      cases digit
    · rintro rfl
      cases digit
  rw [strtol, kept]
  split
  · exact absurd rfl (unsigned _ _ ‹_›).1
  · exact absurd rfl (unsigned _ _ ‹_›).2
  · rw [all]

theorem atoi_digits (decimal : ∀ c ∈ digits, c.isDigit) (small : digitsValue digits < 2 ^ 31) :
    atoi digits = digitsValue digits := by
  rw [atoi, strtol_digits decimal, min_eq_right (by omega)]
  exact Int.bmod_eq_of_le (by omega) (by omega)

theorem atoi_digits_ne (large : 2 ^ 31 ≤ digitsValue digits) : atoi digits ≠ digitsValue digits := by
  have high := atoi_lt digits
  omega

end

end FileServer
