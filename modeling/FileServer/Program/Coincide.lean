import FileServer.Program.Along

/-!
# Two events of a run

A program may come to one kind of event exactly when it comes to another, though not at the same
operation.
-/

namespace FileServer.Machine
open Program
variable {Op : Type} {Resp : Op → Type} {W S ε α β : Type} (M : Machine Op Resp W S ε)

/-- In a run of `p` from `s` an operation is in `A` if and only if one is in `B`, and a run that completes
ends as in `post`. -/
def Coincide (w : W) (A B : S → Op → Prop) (p : Program Op Resp α) (post : α → S → Prop) (s : S) : Prop :=
  ((∃ o t, M.Visits w p s o t ∧ A t o) ↔ ∃ o t, M.Visits w p s o t ∧ B t o) ∧
    ∀ a s', M.run w p s = .ok (a, s') → post a s'

variable {M} {w : W} {A B : S → Op → Prop} {p : Program Op Resp α} {s t : S} {o : Op}

theorem visits_op {next : Resp o → Program Op Resp α} {o' : Op} :
    M.Visits w (.op o next) s o' t ↔
      (o' = o ∧ t = s) ∨ ∃ x s', M.exec w o s = .ok (x, s') ∧ M.Visits w (next x) s' o' t := by
  constructor
  · intro visits
    cases visits with
    | here => exact .inl ⟨rfl, rfl⟩
    | later step rest => exact .inr ⟨_, _, step, rest⟩
  · rintro (⟨rfl, rfl⟩ | ⟨x, s', step, rest⟩)
    · exact .here
    · exact .later step rest

theorem visits_bind (k : α → Program Op Resp β) :
    M.Visits w (p >>= k) s o t ↔
      M.Visits w p s o t ∨ ∃ a s', M.run w p s = .ok (a, s') ∧ M.Visits w (k a) s' o t := by
  induction p generalizing s with
  | ret a =>
      constructor
      · exact fun visits => .inr ⟨a, s, rfl, visits⟩
      · rintro (none | ⟨a', s', ends, visits⟩)
        · cases none
        · cases ends
          exact visits
  | op o' next ih =>
      show M.Visits w (.op o' fun x => next x >>= k) s o t ↔ _
      rw [visits_op, visits_op]
      simp only [ih, run_op, Outcome.andThen_eq_ok]
      constructor
      · rintro (here | ⟨x, s', step, now | ⟨a, s'', ends, visits⟩⟩)
        · exact .inl (.inl here)
        · exact .inl (.inr ⟨x, s', step, now⟩)
        · exact .inr ⟨a, s'', ⟨(x, s'), step, ends⟩, visits⟩
      · rintro ((here | ⟨x, s', step, now⟩) | ⟨a, s'', ⟨⟨x, s'⟩, step, ends⟩, visits⟩)
        · exact .inl here
        · exact .inr ⟨x, s', step, .inl now⟩
        · exact .inr ⟨x, s', step, .inr ⟨a, s'', ends, visits⟩⟩

namespace Coincide
variable {post mid : α → S → Prop}

theorem ret {a : α} (done : post a s) : M.Coincide w A B (.ret a) post s := by
  refine ⟨iff_of_false ?_ ?_, fun a' s' ends => ?_⟩
  · rintro ⟨o, t, visits, -⟩
    cases visits
  · rintro ⟨o, t, visits, -⟩
    cases visits
  · cases ends
    exact done

theorem call {post : Resp o → S → Prop} (same : A s o ↔ B s o)
    (done : ∀ x s', M.exec w o s = .ok (x, s') → post x s') :
    M.Coincide w A B (perform o) post s := by
  have only (C : S → Op → Prop) : (∃ o' t, M.Visits w (perform o) s o' t ∧ C t o') ↔ C s o := by
    constructor
    · rintro ⟨o', t, visits, holds⟩
      rcases visits_op.mp visits with ⟨rfl, rfl⟩ | ⟨x, s', -, later⟩
      · exact holds
      · cases later
    · exact fun holds => ⟨o, s, .here, holds⟩
  refine ⟨(only A).trans (same.trans (only B).symm), fun x s' ends => done x s' ?_⟩
  rwa [run_perform] at ends

theorem bind {k : α → Program Op Resp β} {post : β → S → Prop} (first : M.Coincide w A B p mid s)
    (rest : ∀ a s', mid a s' → M.Coincide w A B (k a) post s') : M.Coincide w A B (p >>= k) post s := by
  have split (C : S → Op → Prop) : (∃ o t, M.Visits w (p >>= k) s o t ∧ C t o) ↔
      (∃ o t, M.Visits w p s o t ∧ C t o) ∨
        ∃ a s', M.run w p s = .ok (a, s') ∧ ∃ o t, M.Visits w (k a) s' o t ∧ C t o := by
    simp only [visits_bind]
    constructor
    · rintro ⟨o, t, now | ⟨a, s', ends, later⟩, holds⟩
      · exact .inl ⟨o, t, now, holds⟩
      · exact .inr ⟨a, s', ends, o, t, later, holds⟩
    · rintro (⟨o, t, now, holds⟩ | ⟨a, s', ends, o, t, later, holds⟩)
      · exact ⟨o, t, .inl now, holds⟩
      · exact ⟨o, t, .inr ⟨a, s', ends, later⟩, holds⟩
  refine ⟨?_, fun b s'' ends => ?_⟩
  · rw [split A, split B, first.1]
    refine or_congr_right (exists_congr fun a => exists_congr fun s' => and_congr_right fun ends => ?_)
    exact (rest a s' (first.2 a s' ends)).1
  · rw [run_bind, Outcome.andThen_eq_ok] at ends
    obtain ⟨⟨a, s'⟩, ends, later⟩ := ends
    exact (rest a s' (first.2 a s' ends)).2 b s'' later

theorem mono {post' : α → S → Prop} (coincide : M.Coincide w A B p post s)
    (le : ∀ a s', post a s' → post' a s') : M.Coincide w A B p post' s :=
  ⟨coincide.1, fun a s' ends => le a s' (coincide.2 a s' ends)⟩

theorem ite {c : Prop} [Decidable c] {q : Program Op Resp α} (pos : c → M.Coincide w A B p post s)
    (neg : ¬c → M.Coincide w A B q post s) : M.Coincide w A B (if c then p else q) post s := by
  by_cases h : c
  · rw [if_pos h]
    exact pos h
  · rw [if_neg h]
    exact neg h

theorem stop (first : ∃ o t, M.Visits w p s o t ∧ A t o) (second : ∃ o t, M.Visits w p s o t ∧ B t o)
    (stuck : ∀ a s', M.run w p s ≠ .ok (a, s')) : M.Coincide w A B p post s :=
  ⟨iff_of_true first second, fun a s' ends => (stuck a s' ends).elim⟩

theorem all {P : Op → Prop} {R : S → S → Prop} (all : p.All P) (none : ∀ t o, P o → ¬A t o ∧ ¬B t o)
    (refl : ∀ s, R s s) (step : ∀ o t t₁ x s', P o → M.exec w o t = .ok (x, t₁) → R t₁ s' → R t s') :
    M.Coincide w A B p (fun _ s' => R s s') s := by
  induction p generalizing s with
  | ret a => exact ret (refl s)
  | op o next ih =>
      have here : M.Coincide w A B (perform o) (fun x s' => M.exec w o s = .ok (x, s')) s :=
        call (iff_of_false (none s o all.1).1 (none s o all.1).2) fun x s' ends => ends
      refine here.bind (k := next) fun x t₁ ends => (ih x (all.2 x)).mono fun a s' later => ?_
      exact step o s t₁ x s' all.1 ends later

end Coincide

end FileServer.Machine
