import FileServer.Program.Basic

/-!
# Running a program alone

A machine executes one operation of a worker. Running a program alone either ends with a value,
waits for ever (`blocked`), retries for ever (`spinning`) or stops at a fault.
-/

namespace FileServer

inductive Outcome (ε α : Type) : Type where
  | ok (a : α)
  | blocked
  | spinning
  | fault (e : ε)
deriving DecidableEq, Repr

namespace Outcome
variable {ε α β : Type}

def andThen : Outcome ε α → (α → Outcome ε β) → Outcome ε β
  | .ok a, k => k a
  | .blocked, _ => .blocked
  | .spinning, _ => .spinning
  | .fault e, _ => .fault e

@[simp] theorem andThen_ok (a : α) (k : α → Outcome ε β) : (Outcome.ok a).andThen k = k a := rfl
@[simp] theorem andThen_blocked (k : α → Outcome ε β) :
    (Outcome.blocked : Outcome ε α).andThen k = .blocked := rfl
@[simp] theorem andThen_spinning (k : α → Outcome ε β) :
    (Outcome.spinning : Outcome ε α).andThen k = .spinning := rfl
@[simp] theorem andThen_fault (e : ε) (k : α → Outcome ε β) :
    (Outcome.fault e : Outcome ε α).andThen k = .fault e := rfl

theorem andThen_eq_ok {o : Outcome ε α} {k : α → Outcome ε β} {b : β} :
    o.andThen k = .ok b ↔ ∃ a, o = .ok a ∧ k a = .ok b := by
  cases o <;> simp

theorem andThen_eq_fault {o : Outcome ε α} {k : α → Outcome ε β} {e : ε} :
    o.andThen k = .fault e ↔ o = .fault e ∨ ∃ a, o = .ok a ∧ k a = .fault e := by
  cases o <;> simp

def okAnd (p : α → Bool) : Outcome ε α → Bool
  | .ok a => p a
  | _ => false

theorem okAnd_iff {p : α → Bool} {o : Outcome ε α} :
    o.okAnd p = true ↔ ∃ a, o = .ok a ∧ p a = true := by
  cases o <;> simp [okAnd]

def isFault [DecidableEq ε] (e : ε) : Outcome ε α → Bool
  | .fault e' => e' = e
  | _ => false

theorem isFault_iff [DecidableEq ε] {e : ε} {o : Outcome ε α} :
    o.isFault e = true ↔ o = .fault e := by
  cases o <;> simp [isFault]

theorem andThen_assoc {γ : Type} (o : Outcome ε α) (k : α → Outcome ε β) (l : β → Outcome ε γ) :
    (o.andThen k).andThen l = o.andThen fun a => (k a).andThen l := by
  cases o <;> rfl

end Outcome

structure Machine (Op : Type) (Resp : Op → Type) (W S ε : Type) where
  exec : W → (o : Op) → S → Outcome ε (Resp o × S)

namespace Machine
open Program
variable {Op : Type} {Resp : Op → Type} {W S ε α β : Type} (M : Machine Op Resp W S ε)

def run (w : W) : Program Op Resp α → S → Outcome ε (α × S)
  | .ret a, s => .ok (a, s)
  | .op o next, s => (M.exec w o s).andThen fun (x, s') => run w (next x) s'

@[simp] theorem run_ret (w : W) (a : α) (s : S) :
    M.run w (.ret a : Program Op Resp α) s = .ok (a, s) := rfl

@[simp] theorem run_pure (w : W) (a : α) (s : S) :
    M.run w (pure a : Program Op Resp α) s = .ok (a, s) := rfl

theorem run_op (w : W) (o : Op) (next : Resp o → Program Op Resp α) (s : S) :
    M.run w (.op o next) s = (M.exec w o s).andThen fun (x, s') => M.run w (next x) s' := rfl

@[simp] theorem run_perform (w : W) (o : Op) (s : S) :
    M.run w (perform o : Program Op Resp (Resp o)) s = M.exec w o s := by
  unfold perform
  rw [run_op]
  cases M.exec w o s <;> rfl

theorem run_bind_eq (w : W) (p : Program Op Resp α) (k : α → Program Op Resp β) (s : S) :
    M.run w (p.bind k) s = (M.run w p s).andThen fun (a, s') => M.run w (k a) s' := by
  induction p generalizing s with
  | ret a => rfl
  | op o next ih =>
      simp only [Program.bind, run_op, ih, Outcome.andThen_assoc]

@[simp] theorem run_bind (w : W) (p : Program Op Resp α) (k : α → Program Op Resp β) (s : S) :
    M.run w (p >>= k) s = (M.run w p s).andThen fun (a, s') => M.run w (k a) s' :=
  M.run_bind_eq w p k s

variable {M} in
theorem run_bind_of {w : W} {p : Program Op Resp α} {s s' : S} {a : α}
    (first : M.run w p s = .ok (a, s')) (k : α → Program Op Resp β) :
    M.run w (p >>= k) s = M.run w (k a) s' := by
  rw [run_bind, first]
  rfl

theorem run_keeps {R : S → S → Prop} {w : W} (refl : ∀ s, R s s)
    (trans : ∀ s s₁ s₂, R s s₁ → R s₁ s₂ → R s s₂)
    (step : ∀ o s x s', M.exec w o s = .ok (x, s') → R s s') {p : Program Op Resp α} {s s' : S} {a : α}
    (ends : M.run w p s = .ok (a, s')) : R s s' := by
  induction p generalizing s with
  | ret b =>
      cases ends
      exact refl _
  | op o next ih =>
      rw [run_op, Outcome.andThen_eq_ok] at ends
      obtain ⟨⟨x, s₁⟩, first, rest⟩ := ends
      exact trans s s₁ s' (step o s x s₁ first) (ih x rest)

/-- The discipline whose ghost state is the machine's own state: partial correctness, up to the
tolerated faults. -/
def alone (w : W) (tolerated : ε → Prop) : Discipline Op Resp S where
  pre s o := ∀ e, M.exec w o s = .fault e → tolerated e
  post s o x s' := M.exec w o s = .ok (x, s')

theorem wp_alone (w : W) (tolerated : ε → Prop) (p : Program Op Resp α) (post : α → S → Prop)
    (s : S) :
    wp (M.alone w tolerated) p post s ↔
      (∀ e, M.run w p s = .fault e → tolerated e) ∧
        ∀ a s', M.run w p s = .ok (a, s') → post a s' := by
  induction p generalizing s with
  | ret a => simp [wp]
  | op o next ih =>
      rw [wp_op, run_op]
      dsimp only [alone]
      cases step : M.exec w o s with
      | ok result =>
          obtain ⟨x, s₁⟩ := result
          simp only [Outcome.ok.injEq, Prod.mk.injEq, Outcome.andThen_ok, ← ih x s₁]
          constructor
          · intro h
            exact h.2 x s₁ ⟨rfl, rfl⟩
          · intro h
            refine ⟨nofun, ?_⟩
            rintro x' s' ⟨rfl, rfl⟩
            exact h
      | blocked => simp
      | spinning => simp
      | fault e => simp

end Machine

end FileServer
