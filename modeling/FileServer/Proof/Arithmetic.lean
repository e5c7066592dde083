import FileServer.Model.Store

/-!
# C arithmetic on small numbers
-/

namespace FileServer

theorem cInt_of_small {x : Int} (low : -2 ^ 31 ≤ x) (high : x < 2 ^ 31) : cInt x = x := by
  unfold cInt
  apply Int.bmod_eq_of_le <;> omega

theorem sizeT_of_small {n : Nat} (small : n < 2 ^ 64) : sizeT n = n := by
  unfold sizeT
  omega

theorem sizeT_lt (x : Int) : sizeT x < 2 ^ 64 := by
  have high : x % 2 ^ 64 < 2 ^ 64 := Int.emod_lt_of_pos x (by decide)
  unfold sizeT
  omega

theorem cInt_sizeT (x : Int) : cInt (sizeT x) = cInt x := by
  have nonneg : (0 : Int) ≤ x % 2 ^ 64 := Int.emod_nonneg x (by decide)
  unfold cInt sizeT Int.bmod
  rw [Int.toNat_of_nonneg nonneg, Int.emod_emod_of_dvd x (by decide)]

end FileServer
