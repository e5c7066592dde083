import Mathlib.Data.List.Nodup
import Mathlib.Data.List.Perm.Subperm
import Mathlib.Data.Set.Defs

/-!
# Items apportioned to places

Items of a set that move from place to place without being in two of them. An item may get lost on the
way.
-/

namespace FileServer

structure Apportioned {P α : Type} (items : Set α) (holds : P → List α) : Prop where
  items : ∀ p, ∀ x ∈ holds p, x ∈ items
  nodup : ∀ p, (holds p).Nodup
  apart : ∀ p q, p ≠ q → (holds p).Disjoint (holds q)

namespace Apportioned
variable {P α : Type} {items : Set α} {holds holds' : P → List α} {a b p q : P} {x : α}

theorem unique (apportioned : Apportioned items holds) (left : x ∈ holds p)
    (right : x ∈ holds q) : p = q := by
  by_contra other
  exact apportioned.apart p q other left right

theorem transfer (apportioned : Apportioned items holds) (other : a ≠ b)
    (fewer : (holds' a ++ holds' b).Subperm (holds a ++ holds b))
    (rest : ∀ p, p ≠ a → p ≠ b → holds' p = holds p) : Apportioned items holds' := by
  have both : (holds a ++ holds b).Nodup :=
    (apportioned.nodup a).append (apportioned.nodup b) (apportioned.apart a b other)
  obtain ⟨l, perm, sublist⟩ := fewer
  have nodup : (holds' a ++ holds' b).Nodup := perm.nodup_iff.mp (both.sublist sublist)
  have came {x : α} (here : x ∈ holds' a ++ holds' b) : x ∈ holds a ++ holds b :=
    sublist.subset (perm.mem_iff.mpr here)
  obtain ⟨first, second, apart⟩ := List.nodup_append'.mp nodup
  -- an item of the two places is in no third one
  have third {p : P} {x : α} (notA : p ≠ a) (notB : p ≠ b) (here : x ∈ holds' a ++ holds' b) :
      x ∉ holds' p := by
    rw [rest p notA notB]
    intro there
    rcases List.mem_append.mp (came here) with was | was
    · exact notA (apportioned.unique there was)
    · exact notB (apportioned.unique there was)
  refine ⟨fun p x here => ?_, fun p => ?_, fun p q different x left right => ?_⟩
  · by_cases either : p = a ∨ p = b
    · have moved : x ∈ holds' a ++ holds' b := by
        rcases either with rfl | rfl
        · exact List.mem_append_left _ here
        · exact List.mem_append_right _ here
      rcases List.mem_append.mp (came moved) with was | was
      · exact apportioned.items a x was
      · exact apportioned.items b x was
    · rw [not_or] at either
      rw [rest p either.1 either.2] at here
      exact apportioned.items p x here
  · by_cases isA : p = a
    · exact isA ▸ first
    by_cases isB : p = b
    · exact isB ▸ second
    rw [rest p isA isB]
    exact apportioned.nodup p
  · by_cases isA : p = a
    · subst isA
      by_cases isB : q = b
      · subst isB
        exact apart left right
      · exact third (Ne.symm different) isB (List.mem_append_left _ left) right
    by_cases isB : p = b
    · subst isB
      by_cases isA' : q = a
      · subst isA'
        exact apart right left
      · exact third isA' (Ne.symm different) (List.mem_append_right _ left) right
    by_cases isA' : q = a
    · subst isA'
      exact third isA isB (List.mem_append_left _ right) left
    by_cases isB' : q = b
    · subst isB'
      exact third isA isB (List.mem_append_right _ right) left
    rw [rest p isA isB] at left
    rw [rest q isA' isB'] at right
    exact apportioned.apart p q different left right

theorem keep (apportioned : Apportioned items holds) (a : P) (fewer : (holds' a).Subperm (holds a))
    (rest : ∀ p, p ≠ a → holds' p = holds p) : Apportioned items holds' := by
  have came {p : P} {x : α} (here : x ∈ holds' p) : x ∈ holds p := by
    by_cases same : p = a
    · subst same
      exact fewer.subset here
    · rwa [rest p same] at here
  refine ⟨fun p x here => apportioned.items p x (came here), fun p => ?_, fun p q different x left right =>
    apportioned.apart p q different (came left) (came right)⟩
  by_cases same : p = a
  · subst same
    obtain ⟨l, perm, sublist⟩ := fewer
    exact perm.nodup_iff.mp ((apportioned.nodup p).sublist sublist)
  · rw [rest p same]
    exact apportioned.nodup p

end Apportioned

end FileServer
