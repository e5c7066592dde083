import FileServer.Program.Along

/-!
# Two programs run side by side

Rules for two runs of a machine of which the second completes whenever the first does.
-/

namespace FileServer.Machine
open Program
variable {Op : Type} {Resp : Op → Type} {W S ε α β γ δ : Type} (M : Machine Op Resp W S ε)

/-- If `p₁` completes from `s₁`, then so does `p₂` from `s₂`, and they end as in `post`. -/
def Paired (w : W) (p₁ : Program Op Resp α) (p₂ : Program Op Resp β) (post : α → β → S → S → Prop)
    (s₁ s₂ : S) : Prop :=
  ∀ a s₁', M.run w p₁ s₁ = .ok (a, s₁') → ∃ b s₂', M.run w p₂ s₂ = .ok (b, s₂') ∧ post a b s₁' s₂'

variable {M} {w : W} {p₁ : Program Op Resp α} {p₂ : Program Op Resp β}
  {post mid : α → β → S → S → Prop} {s₁ s₂ : S}

theorem Paired.ret {a : α} {b : β} (done : post a b s₁ s₂) :
    M.Paired w (.ret a) (.ret b) post s₁ s₂ := by
  intro a' s₁' ends
  cases ends
  exact ⟨b, s₂, rfl, done⟩

theorem Paired.bind {k₁ : α → Program Op Resp γ} {k₂ : β → Program Op Resp δ}
    {post : γ → δ → S → S → Prop} (first : M.Paired w p₁ p₂ mid s₁ s₂)
    (rest : ∀ a b t₁ t₂, mid a b t₁ t₂ → M.Paired w (k₁ a) (k₂ b) post t₁ t₂) :
    M.Paired w (p₁ >>= k₁) (p₂ >>= k₂) post s₁ s₂ := by
  intro c s₁' ends
  rw [run_bind, Outcome.andThen_eq_ok] at ends
  obtain ⟨⟨a, t₁⟩, ends₁, ends⟩ := ends
  obtain ⟨b, t₂, ends₂, related⟩ := first a t₁ ends₁
  rw [run_bind_of ends₂]
  exact rest a b t₁ t₂ related c s₁' ends

theorem Paired.mono {post' : α → β → S → S → Prop} (paired : M.Paired w p₁ p₂ post s₁ s₂)
    (le : ∀ a b t₁ t₂, post a b t₁ t₂ → post' a b t₁ t₂) : M.Paired w p₁ p₂ post' s₁ s₂ := by
  intro a s₁' ends
  obtain ⟨b, s₂', ends₂, related⟩ := paired a s₁' ends
  exact ⟨b, s₂', ends₂, le a b s₁' s₂' related⟩

theorem Paired.ite {c : Prop} [Decidable c] {q₁ : Program Op Resp α} {q₂ : Program Op Resp β}
    (pos : c → M.Paired w p₁ p₂ post s₁ s₂) (neg : ¬c → M.Paired w q₁ q₂ post s₁ s₂) :
    M.Paired w (if c then p₁ else q₁) (if c then p₂ else q₂) post s₁ s₂ := by
  by_cases h : c
  · rw [if_pos h, if_pos h]
    exact pos h
  · rw [if_neg h, if_neg h]
    exact neg h

theorem Paired.all {P : Op → Prop} {R : S → S → Prop} {p : Program Op Resp α} (all : p.All P)
    (step : ∀ o t₁ t₂ x t₁', P o → R t₁ t₂ → M.exec w o t₁ = .ok (x, t₁') →
      ∃ t₂', M.exec w o t₂ = .ok (x, t₂') ∧ R t₁' t₂')
    (start : R s₁ s₂) : M.Paired w p p (fun a b t₁ t₂ => a = b ∧ R t₁ t₂) s₁ s₂ := by
  induction p generalizing s₁ s₂ with
  | ret a => exact .ret ⟨rfl, start⟩
  | op o next ih =>
      intro a s₁' ends
      rw [run_op, Outcome.andThen_eq_ok] at ends
      obtain ⟨⟨x, t₁⟩, ends₁, ends⟩ := ends
      obtain ⟨t₂, ends₂, related⟩ := step o s₁ s₂ x t₁ all.1 start ends₁
      rw [run_op, ends₂, Outcome.andThen_ok]
      exact ih x (all.2 x) related a s₁' ends

end FileServer.Machine
