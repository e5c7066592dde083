import Mathlib.Logic.Relation

/-!
# Waiting in a circle
-/

namespace FileServer
open Relation

def Circular {W : Type} (waits : W → W → Prop) : Prop := ∃ w, TransGen waits w w

variable {W : Type} {waits : W → W → Prop}

theorem circular_of_two {v w : W} (there : waits v w) (back : waits w v) : Circular waits :=
  ⟨v, .tail (.single there) back⟩

theorem not_circular_of_rank (rank : W → Nat)
    (higher : ∀ u v w, waits u v → waits v w → rank u < rank v) : ¬Circular waits := by
  rintro ⟨w, circle⟩
  have climbs {u v w : W} (path : TransGen waits u v) (onward : waits v w) : rank u < rank v := by
    induction path generalizing w with
    | single step => exact higher _ _ _ step onward
    | tail before step ih => exact Nat.lt_trans (ih step) (higher _ _ _ step onward)
  obtain ⟨v, onward, -⟩ := TransGen.head'_iff.mp circle
  exact Nat.lt_irrefl _ (climbs circle onward)

end FileServer
