import Mathlib.Data.List.Nodup
import Mathlib.Logic.Function.Basic

/-!
# Singly linked lists

`next` is the link stored at every address, `none` the null pointer. `Segment next p as q` holds when
the links lead from `p` through the addresses `as` to `q`.
-/

namespace FileServer
variable {A : Type}

def Segment (next : A → Option A) (p : Option A) : List A → Option A → Prop
  | [], q => p = q
  | a :: as, q => p = some a ∧ Segment next (next a) as q

namespace Segment
variable {next next' : A → Option A} {p q r : Option A} {a : A} {as bs : List A}

@[simp] theorem nil_iff : Segment next p [] q ↔ p = q := Iff.rfl

@[simp] theorem cons_iff : Segment next p (a :: as) q ↔ p = some a ∧ Segment next (next a) as q :=
  Iff.rfl

theorem append_iff :
    Segment next p (as ++ bs) r ↔ ∃ q, Segment next p as q ∧ Segment next q bs r := by
  induction as generalizing p with
  | nil => simp
  | cons a as ih => simp [ih, and_assoc]

theorem congr (segment : Segment next p as q) (same : ∀ a ∈ as, next' a = next a) :
    Segment next' p as q := by
  induction as generalizing p with
  | nil => exact segment
  | cons a as ih =>
      obtain ⟨first, rest⟩ := segment
      refine ⟨first, ?_⟩
      rw [same a List.mem_cons_self]
      exact ih rest fun b mem => same b (List.mem_cons_of_mem a mem)

theorem unique (left : Segment next p as none) (right : Segment next p bs none) : as = bs := by
  induction as generalizing p bs with
  | nil =>
      cases bs with
      | nil => rfl
      | cons b bs => cases left.symm.trans right.1
  | cons a as ih =>
      cases bs with
      | nil => cases left.1.symm.trans right
      | cons b bs =>
          cases left.1.symm.trans right.1
          rw [ih left.2 right.2]

theorem nodup (segment : Segment next p as none) : as.Nodup := by
  induction as generalizing p with
  | nil => exact List.nodup_nil
  | cons a as ih =>
      rw [List.nodup_cons]
      refine ⟨fun mem => ?_, ih segment.2⟩
      obtain ⟨front, back, split⟩ := List.append_of_mem mem
      have rest := segment.2
      rw [split, append_iff] at rest
      obtain ⟨q, -, -, again⟩ := rest
      have same := congrArg List.length (again.unique segment.2)
      rw [split, List.length_append, List.length_cons] at same
      omega

variable [DecidableEq A]

theorem snoc {last new : A} (segment : Segment next p (as ++ [last]) none)
    (fresh : new ∉ as ++ [last]) :
    Segment (Function.update (Function.update next new none) last (some new)) p
      (as ++ [last] ++ [new]) none := by
  have notLast : last ∉ as := by
    have distinct := segment.nodup
    rw [List.nodup_append] at distinct
    exact fun mem => distinct.2.2 last mem last List.mem_cons_self rfl
  simp only [List.mem_append, List.mem_singleton, not_or] at fresh
  obtain ⟨notBefore, other⟩ := fresh
  obtain ⟨q, front, reached, -⟩ := append_iff.mp segment
  rw [append_iff]
  refine ⟨some new, append_iff.mpr ⟨q, front.congr fun a mem => ?_, reached, ?_⟩, rfl, ?_⟩
  · rw [Function.update_of_ne (ne_of_mem_of_not_mem mem notLast),
      Function.update_of_ne (ne_of_mem_of_not_mem mem notBefore)]
  · rw [Function.update_self]
    rfl
  · rw [Function.update_of_ne other, Function.update_self]
    rfl

end Segment

end FileServer
