import Mathlib.Data.List.Induction

/-!
# Services

A service answers one request after the other. What its clients can know of it is its log: the requests
with the answers they got.
-/

namespace FileServer

structure Service (S R A : Type*) where
  start : S
  serves : S → R → A → S → Prop

/-- The logs of a service, with the states they may leave it in. -/
inductive Service.Runs {S R A : Type*} (service : Service S R A) : List (R × A) → S → Prop where
  | start : service.Runs [] service.start
  | serve {log s r a s'} (before : service.Runs log s) (served : service.serves s r a s') :
      service.Runs (log ++ [(r, a)]) s'

/-- `relates` is a simulation of the first service by the second. -/
structure Service.Simulates {S T R A : Type*} (first : Service S R A) (second : Service T R A)
    (relates : S → T → Prop) : Prop where
  start : relates first.start second.start
  serve : ∀ log s t r a s', first.Runs log s → relates s t → first.serves s r a s' →
    ∃ t', second.serves t r a t' ∧ relates s' t'

namespace Service
variable {S T R A : Type*} {service first : Service S R A} {second : Service T R A}
  {relates : S → T → Prop} {log before after : List (R × A)} {s : S} {r : R} {a : A}

theorem Simulates.runs (simulates : first.Simulates second relates) (runs : first.Runs log s) :
    ∃ t, second.Runs log t ∧ relates s t := by
  induction runs with
  | start => exact ⟨_, .start, simulates.start⟩
  | serve before served ih =>
      obtain ⟨t, runs, related⟩ := ih
      obtain ⟨t', served', related'⟩ := simulates.serve _ _ _ _ _ _ before related served
      exact ⟨t', runs.serve served', related'⟩

theorem Runs.singleton_append {e : R × A} (runs : service.Runs (log ++ [e]) s) :
    ∃ s₁, service.Runs log s₁ ∧ service.serves s₁ e.1 e.2 s := by
  generalize whole : log ++ [e] = extended at runs
  cases runs with
  | start => simp at whole
  | serve before served =>
      obtain ⟨same, last⟩ := List.append_inj' whole rfl
      cases same
      cases last
      exact ⟨_, before, served⟩

/-- Every entry of a log was served in the state that the entries in front of it lead to. -/
theorem Runs.split (runs : service.Runs (before ++ (r, a) :: after) s) :
    ∃ s₁ s₂, service.Runs before s₁ ∧ service.serves s₁ r a s₂ := by
  induction after using List.reverseRecOn generalizing s with
  | nil =>
      obtain ⟨s₁, runs₁, served⟩ := runs.singleton_append
      exact ⟨s₁, s, runs₁, served⟩
  | append_singleton after e ih =>
      rw [← List.cons_append, ← List.append_assoc] at runs
      obtain ⟨s₁, runs₁, -⟩ := runs.singleton_append
      exact ih runs₁

end Service

end FileServer
