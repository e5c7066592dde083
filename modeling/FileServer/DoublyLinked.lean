import Mathlib.Data.List.Nodup
import Mathlib.Logic.Function.Basic

/-!
# Doubly linked lists

A memory of cells that have a link to the next cell and one to the cell before; an address that is not
allocated has none. `Doubly cells b p as e q` holds when the links lead from `p` through the cells `as`
to `q`, and every cell points back to the one before it: the first to `b`, and what follows the last to
`e`.
-/

namespace FileServer
variable {A D : Type}

structure Cell (A D : Type) where
  data : D
  next : Option A
  prev : Option A
deriving DecidableEq, Repr

abbrev Cells (A D : Type) := A → Option (Cell A D)

namespace Cells
variable [DecidableEq A]

def put (cells : Cells A D) (a : A) (cell : Cell A D) : Cells A D := Function.update cells a (some cell)

def free (cells : Cells A D) (a : A) : Cells A D := Function.update cells a none

/-- `none` when there is no cell at `a`. -/
def setNext (cells : Cells A D) (a : A) (next : Option A) : Option (Cells A D) :=
  (cells a).map fun cell => cells.put a { cell with next }

def setPrev (cells : Cells A D) (a : A) (prev : Option A) : Option (Cells A D) :=
  (cells a).map fun cell => cells.put a { cell with prev }

def setPrevOf (cells : Cells A D) (p prev : Option A) : Option (Cells A D) :=
  match p with
  | some a => cells.setPrev a prev
  | none => some cells

end Cells

def Doubly (cells : Cells A D) (b p : Option A) : List (A × D) → Option A → Option A → Prop
  | [], e, q => b = e ∧ p = q
  | (a, d) :: as, e, q => p = some a ∧ ∃ p', cells a = some ⟨d, p', b⟩ ∧ Doubly cells (some a) p' as e q

namespace Doubly
variable {cells cells' : Cells A D} {b p e q : Option A} {a : A} {d : D} {as bs : List (A × D)}

@[simp] theorem nil_iff : Doubly cells b p [] e q ↔ b = e ∧ p = q := Iff.rfl

@[simp] theorem cons_iff : Doubly cells b p ((a, d) :: as) e q ↔
    p = some a ∧ ∃ p', cells a = some ⟨d, p', b⟩ ∧ Doubly cells (some a) p' as e q := Iff.rfl

theorem append_iff : Doubly cells b p (as ++ bs) e q ↔
    ∃ b' p', Doubly cells b p as b' p' ∧ Doubly cells b' p' bs e q := by
  induction as generalizing b p with
  | nil => simp
  | cons x as ih =>
      obtain ⟨a, d⟩ := x
      simp only [List.cons_append, cons_iff, ih]
      constructor
      · rintro ⟨first, p', cell, b', p'', rest, behind⟩
        exact ⟨b', p'', ⟨first, p', cell, rest⟩, behind⟩
      · rintro ⟨b', p'', ⟨first, p', cell, rest⟩, behind⟩
        exact ⟨first, p', cell, b', p'', rest, behind⟩

theorem congr (linked : Doubly cells b p as e q) (same : ∀ a ∈ as.map Prod.fst, cells' a = cells a) :
    Doubly cells' b p as e q := by
  induction as generalizing b p with
  | nil => exact linked
  | cons x as ih =>
      obtain ⟨a, d⟩ := x
      obtain ⟨first, p', cell, rest⟩ := linked
      have kept : cells' a = some ⟨d, p', b⟩ := by rw [same a (by simp), cell]
      exact ⟨first, p', kept, ih rest fun c mem => same c (List.mem_cons_of_mem a mem)⟩

theorem cell (linked : Doubly cells b p as e q) (mem : (a, d) ∈ as) :
    ∃ p' b', cells a = some ⟨d, p', b'⟩ := by
  induction as generalizing b p with
  | nil => cases mem
  | cons x as ih =>
      obtain ⟨first, p', cell, rest⟩ := linked
      rcases List.mem_cons.mp mem with rfl | later
      · exact ⟨p', b, cell⟩
      · exact ih rest later

theorem allocated (linked : Doubly cells b p as e q) (mem : a ∈ as.map Prod.fst) : cells a ≠ none := by
  obtain ⟨⟨a, d⟩, inside, rfl⟩ := List.mem_map.mp mem
  obtain ⟨p', b', cell⟩ := linked.cell inside
  simp [cell]

theorem last (linked : Doubly cells b p (as ++ [(a, d)]) e q) :
    e = some a ∧ ∃ b', cells a = some ⟨d, q, b'⟩ := by
  obtain ⟨b', -, -, -, p', cell, back, rfl⟩ := append_iff.mp linked
  exact ⟨back.symm, b', cell⟩

variable [DecidableEq A]

theorem put (linked : Doubly cells b p as e q) (apart : a ∉ as.map Prod.fst) (cell : Cell A D) :
    Doubly (cells.put a cell) b p as e q :=
  linked.congr fun _ mem => Function.update_of_ne (ne_of_mem_of_not_mem mem apart) ..

theorem free (linked : Doubly cells b p as e q) (apart : a ∉ as.map Prod.fst) :
    Doubly (cells.free a) b p as e q :=
  linked.congr fun _ mem => Function.update_of_ne (ne_of_mem_of_not_mem mem apart) ..

theorem setPrevOf (linked : Doubly cells b p as e none) (nodup : (as.map Prod.fst).Nodup)
    (b' : Option A) :
    ∃ cells' e', cells.setPrevOf p b' = some cells' ∧ Doubly cells' b' p as e' none ∧
      ∀ c, c ∉ as.map Prod.fst → cells' c = cells c := by
  cases as with
  | nil =>
      obtain ⟨-, rfl⟩ := linked
      exact ⟨cells, b', rfl, ⟨rfl, rfl⟩, fun _ _ => rfl⟩
  | cons x as =>
      obtain ⟨a, d⟩ := x
      obtain ⟨rfl, p', cell, rest⟩ := linked
      have distinct := List.nodup_cons.mp nodup
      refine ⟨cells.put a ⟨d, p', b'⟩, e, ?_, ⟨rfl, p', Function.update_self .., rest.put distinct.1 _⟩,
        fun c outside => Function.update_of_ne (fun same => ?_) ..⟩
      · simp [Cells.setPrevOf, Cells.setPrev, cell]
      · exact outside (by simp [same])

theorem setNext (linked : Doubly cells b p (as ++ [(a, d)]) e q) (apart : a ∉ as.map Prod.fst)
    (q' : Option A) :
    ∃ cells', cells.setNext a q' = some cells' ∧ Doubly cells' b p (as ++ [(a, d)]) (some a) q' ∧
      ∀ c ≠ a, cells' c = cells c := by
  obtain ⟨b', p', front, first, p'', cell, last, after⟩ := append_iff.mp linked
  refine ⟨cells.put a ⟨d, q', b'⟩, ?_, append_iff.mpr ⟨b', p', front.put apart _, first, q', ?_, rfl, rfl⟩,
    fun c other => Function.update_of_ne other ..⟩
  · simp [Cells.setNext, cell]
  · exact Function.update_self ..

end Doubly

end FileServer
