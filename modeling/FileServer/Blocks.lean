import Mathlib.Data.List.Basic
import Mathlib.Data.List.Nodup
import Mathlib.Logic.Function.Basic

/-!
# A sequence stored in blocks

`mem` holds a block of `size` values at every address. The sequence stored at a list of addresses is
the concatenation of their blocks; writing inside one block writes inside the sequence.
-/

namespace FileServer
variable {α : Type}

/-- `ys` in place of the values of `xs` from index `k` on. -/
def overwrite (xs : List α) (k : Nat) (ys : List α) : List α :=
  xs.take k ++ ys ++ xs.drop (k + ys.length)

section
variable {xs ys zs : List α} {k n : Nat}

@[simp] theorem overwrite_nil (xs : List α) (k : Nat) : overwrite xs k [] = xs := by
  simp [overwrite]

theorem length_overwrite (inside : k + ys.length ≤ xs.length) :
    (overwrite xs k ys).length = xs.length := by
  simp only [overwrite, List.length_append, List.length_take, List.length_drop]
  omega

theorem overwrite_append_left (zs : List α) (inside : k + ys.length ≤ xs.length) :
    overwrite (xs ++ zs) k ys = overwrite xs k ys ++ zs := by
  have start : k ≤ xs.length := Nat.le_of_add_right_le inside
  unfold overwrite
  rw [List.take_append_of_le_length start, List.drop_append_of_le_length inside,
    List.append_assoc _ _ zs]

theorem overwrite_append_right (xs ys zs : List α) (k : Nat) :
    overwrite (zs ++ xs) (zs.length + k) ys = zs ++ overwrite xs k ys := by
  unfold overwrite
  rw [List.take_length_add_append, Nat.add_assoc, List.drop_length_add_append]
  simp only [List.append_assoc]

theorem overwrite_overwrite (start : k ≤ xs.length) :
    overwrite (overwrite xs k ys) (k + ys.length) zs = overwrite xs k (ys ++ zs) := by
  have front : (xs.take k ++ ys).length = k + ys.length := by
    rw [List.length_append, List.length_take, Nat.min_eq_left start]
  have split := overwrite_append_right (xs.drop (k + ys.length)) zs (xs.take k ++ ys) 0
  rw [front, Nat.add_zero] at split
  change overwrite (xs.take k ++ ys ++ xs.drop (k + ys.length)) (k + ys.length) zs = _
  rw [split]
  simp [overwrite, List.drop_drop, Nat.add_assoc]

theorem take_overwrite (start : k ≤ xs.length) (n : Nat) (same : n = k + ys.length) :
    (overwrite xs k ys).take n = xs.take k ++ ys := by
  have front : (xs.take k ++ ys).length = n := by
    rw [List.length_append, List.length_take, Nat.min_eq_left start, same]
  unfold overwrite
  rw [← front, List.take_left]

theorem getElem?_overwrite (start : k ≤ xs.length) (y : α) :
    (overwrite xs k (y :: ys))[k]? = some y := by
  have front : (xs.take k).length = k := List.length_take_of_le start
  unfold overwrite
  rw [List.append_assoc, List.getElem?_append_right (Nat.le_of_eq front), front]
  simp

end

section
variable {size : Nat} {pages : List Nat} {mem mem₁ mem₂ : Nat → List α} {ys zs : List α} {k : Nat}

theorem length_flatMap_blocks (pages : List Nat) (sized : ∀ page, (mem page).length = size) :
    (pages.flatMap mem).length = pages.length * size := by
  induction pages with
  | nil => simp
  | cons page pages ih =>
      rw [List.flatMap_cons, List.length_append, sized, ih, List.length_cons, Nat.add_mul]
      omega

/-- `mem'` is `mem` with `ys` written from index `k` on of the sequence stored at `pages`. -/
structure Wrote (size : Nat) (pages : List Nat) (k : Nat) (ys : List α)
    (mem mem' : Nat → List α) : Prop where
  others : ∀ page, page ∉ pages → mem' page = mem page
  sized : ∀ page, (mem' page).length = size
  image : pages.flatMap mem' = overwrite (pages.flatMap mem) k ys

namespace Wrote

theorem refl (pages : List Nat) (k : Nat) (sized : ∀ page, (mem page).length = size) :
    Wrote size pages k [] mem mem :=
  ⟨fun _ _ => rfl, sized, (overwrite_nil _ _).symm⟩

theorem trans (first : Wrote size pages k ys mem mem₁) (sized : ∀ page, (mem page).length = size)
    (start : k ≤ pages.length * size)
    (second : Wrote size pages (k + ys.length) zs mem₁ mem₂) :
    Wrote size pages k (ys ++ zs) mem mem₂ := by
  refine ⟨fun page out => (second.others page out).trans (first.others page out), second.sized, ?_⟩
  rw [second.image, first.image]
  apply overwrite_overwrite
  rwa [length_flatMap_blocks pages sized]

theorem block {i off page : Nat} (nodup : pages.Nodup) (found : pages[i]? = some page)
    (sized : ∀ page, (mem page).length = size) (inside : off + ys.length ≤ size) :
    Wrote size pages (i * size + off) ys mem
      (Function.update mem page (overwrite (mem page) off ys)) := by
  obtain ⟨before, after, rfl, rfl⟩ : ∃ before after, pages = before ++ page :: after ∧
      before.length = i := by
    obtain ⟨bound, here⟩ := List.getElem?_eq_some_iff.mp found
    refine ⟨pages.take i, pages.drop (i + 1), ?_, List.length_take_of_le (Nat.le_of_lt bound)⟩
    rw [← here, List.getElem_cons_drop, List.take_append_drop]
  obtain ⟨-, tail, apart⟩ := List.nodup_append.mp nodup
  have unchanged (rest : List Nat) (out : page ∉ rest) :
      rest.flatMap (Function.update mem page (overwrite (mem page) off ys)) = rest.flatMap mem := by
    refine List.flatMap_congr fun q isIn => Function.update_of_ne ?_ _ _
    rintro rfl
    exact out isIn
  have inside' : off + ys.length ≤ (mem page).length := by
    rw [sized]
    exact inside
  refine ⟨fun q out => Function.update_of_ne ?_ _ _, fun q => ?_, ?_⟩
  · rintro rfl
    exact out (List.mem_append_right _ List.mem_cons_self)
  · by_cases same : q = page
    · rw [same, Function.update_self, length_overwrite inside', sized]
    · rw [Function.update_of_ne same, sized]
  · have notBefore : page ∉ before := fun isIn => apart page isIn page List.mem_cons_self rfl
    have notAfter : page ∉ after := (List.nodup_cons.mp tail).1
    rw [List.flatMap_append, List.flatMap_append, List.flatMap_cons, List.flatMap_cons,
      unchanged _ notBefore, unchanged _ notAfter, Function.update_self,
      ← length_flatMap_blocks before sized, overwrite_append_right,
      overwrite_append_left _ inside']

end Wrote

end

end FileServer
