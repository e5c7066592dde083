import FileServer.Model.Socket

/-!
# Fields on the wire

What is read of a field that was sent.
-/

namespace FileServer

theorem length_intBytes (v : Int) : (intBytes v).length = 4 := length_leBytes ..
theorem length_sizeTBytes (n : Nat) : (sizeTBytes n).length = 8 := length_leBytes ..

theorem intOf_intBytes (v : Int) : intOf (intBytes v) = some (cInt v) := by
  have low : 0 ≤ v % 2 ^ 32 := Int.emod_nonneg _ (by decide)
  have high : v % 2 ^ 32 < 2 ^ 32 := Int.emod_lt_of_pos _ (by decide)
  have same : ofLeBytes (intBytes v) = (v % 2 ^ 32).toNat := by
    rw [intBytes, ofLeBytes_leBytes]
    exact Nat.mod_eq_of_lt (by omega)
  rw [intOf, if_pos (length_intBytes v), same, Int.toNat_of_nonneg low]
  exact congrArg some (Int.emod_bmod ..)

theorem sizeTOf_sizeTBytes {n : Nat} (small : n < 2 ^ 64) : sizeTOf (sizeTBytes n) = some n := by
  rw [sizeTOf, if_pos (length_sizeTBytes n), sizeTBytes, ofLeBytes_leBytes]
  exact congrArg some (Nat.mod_eq_of_lt small)

def cut (path : Path) : Path := path.takeWhile (· ≠ 0)

theorem stringOf_terminated (path : Path) : stringOf (path ++ [0]) = some (cut path) := by
  have ends : 0 ∈ path ++ [0] := by simp
  rw [stringOf, if_pos ends, cut]
  congr 1
  induction path with
  | nil => rfl
  | cons c path ih =>
      rw [List.cons_append, List.takeWhile_cons, List.takeWhile_cons, ih (by simp)]

def pathBytes (path : Path) : List UInt8 := intBytes (path.length + 1) ++ (path ++ [0])

end FileServer
