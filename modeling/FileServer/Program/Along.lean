import FileServer.Program.Machine

/-!
# What happens along a run

The operations that a program comes to when it runs alone, each with the state it is performed in.
-/

namespace FileServer

namespace Program
variable {Op : Type} {Resp : Op → Type} {Γ α β : Type} {P Q : Op → Prop}

/-- Every operation in the program, on every branch, is in `P`. -/
def All (P : Op → Prop) : Program Op Resp α → Prop
  | .ret _ => True
  | .op o next => P o ∧ ∀ x, (next x).All P

@[simp] theorem all_ret (a : α) : (Program.ret a : Program Op Resp α).All P := trivial

@[simp] theorem all_pure (a : α) : (pure a : Program Op Resp α).All P := trivial

@[simp] theorem all_op (o : Op) (next : Resp o → Program Op Resp α) :
    (Program.op o next).All P ↔ P o ∧ ∀ x, (next x).All P := Iff.rfl

@[simp] theorem all_perform (o : Op) : (perform o : Program Op Resp (Resp o)).All P ↔ P o :=
  and_iff_left fun _ => trivial

theorem All.bind_eq {p : Program Op Resp α} {k : α → Program Op Resp β} (first : p.All P)
    (rest : ∀ a, (k a).All P) : (p.bind k).All P := by
  induction p with
  | ret a => exact rest a
  | op o next ih => exact ⟨first.1, fun x => ih x (first.2 x)⟩

theorem All.bind {p : Program Op Resp α} {k : α → Program Op Resp β} (first : p.All P)
    (rest : ∀ a, (k a).All P) : (p >>= k).All P :=
  first.bind_eq rest

theorem All.ite {c : Prop} [Decidable c] {p q : Program Op Resp α} (pos : p.All P) (neg : q.All P) :
    (if c then p else q).All P := by
  by_cases h : c
  · rw [if_pos h]
    exact pos
  · rw [if_neg h]
    exact neg

theorem All.mono {p : Program Op Resp α} (all : p.All P) (le : ∀ o, P o → Q o) : p.All Q := by
  induction p with
  | ret a => trivial
  | op o next ih => exact ⟨le o all.1, fun x => ih x (all.2 x)⟩

theorem wp_both {D D₁ D₂ : Discipline Op Resp Γ} {p : Program Op Resp α} {post₁ post₂ : α → Γ → Prop}
    {g : Γ} (pre : ∀ g o, D₁.pre g o → D₂.pre g o → D.pre g o)
    (post : ∀ g o x g', D.post g o x g' → D₁.post g o x g' ∧ D₂.post g o x g')
    (first : wp D₁ p post₁ g) (second : wp D₂ p post₂ g) :
    wp D p (fun a g' => post₁ a g' ∧ post₂ a g') g := by
  induction p generalizing g with
  | ret a => exact ⟨first, second⟩
  | op o next ih =>
      refine ⟨pre g o first.1 second.1, fun x g' allowed => ?_⟩
      have both := post g o x g' allowed
      exact ih x (first.2 x g' both.1) (second.2 x g' both.2)

theorem All.wp {D D' : Discipline Op Resp Γ} {p : Program Op Resp α} {post : α → Γ → Prop} {g : Γ}
    (all : p.All P) (pre : ∀ g o, P o → D'.pre g o)
    (allowed : ∀ g o x g', D'.post g o x g' → D.post g o x g') (h : wp D p post g) :
    wp D' p post g := by
  induction p generalizing g with
  | ret a => exact h
  | op o next ih =>
      exact ⟨pre g o all.1, fun x g' step => ih x (all.2 x) (h.2 x g' (allowed g o x g' step))⟩

end Program

namespace Machine
open Program
variable {Op : Type} {Resp : Op → Type} {W S ε α β : Type} (M : Machine Op Resp W S ε)

/-- `p`, run by `w` from `s`, comes to perform `o` in the state `t`. -/
inductive Visits (w : W) : Program Op Resp α → S → Op → S → Prop where
  | here {o next s} : Visits w (.op o next) s o s
  | later {o next s x s' o' t} (step : M.exec w o s = .ok (x, s'))
      (rest : Visits w (next x) s' o' t) : Visits w (.op o next) s o' t

/-- The discipline of a program that meets `asks` at each operation, as long as all of them have met
`admits`. -/
def along (w : W) (admits asks : S → Op → Prop) : Discipline Op Resp S where
  pre := asks
  post s o x s' := admits s o ∧ M.exec w o s = .ok (x, s')

variable {M} {w : W} {p : Program Op Resp α} {s : S} {admits asks : S → Op → Prop}
  {post : α → S → Prop}

theorem visits_of_along (safe : wp (M.along w admits asks) p post s)
    (admitted : ∀ o t, M.Visits w p s o t → admits t o) {o : Op} {t : S}
    (visits : M.Visits w p s o t) : asks t o := by
  induction visits with
  | here => exact safe.1
  | @later o next s x s' o' t step rest ih =>
      have allowed := admitted o s .here
      exact ih (safe.2 x s' ⟨allowed, step⟩) fun o t there => admitted o t (.later step there)

theorem run_of_along (safe : wp (M.along w admits asks) p post s)
    (admitted : ∀ o t, M.Visits w p s o t → admits t o) {a : α} {s' : S}
    (ends : M.run w p s = .ok (a, s')) : post a s' := by
  induction p generalizing s with
  | ret b =>
      cases ends
      exact safe
  | op o next ih =>
      rw [run_op, Outcome.andThen_eq_ok] at ends
      obtain ⟨⟨x, s₁⟩, step, rest⟩ := ends
      have allowed := admitted o s .here
      exact ih x (safe.2 x s₁ ⟨allowed, step⟩) (fun o t there => admitted o t (.later step there)) rest

theorem visits_all {P : Op → Prop} (all : p.All P) {o : Op} {t : S} (visits : M.Visits w p s o t) : P o := by
  induction visits with
  | here => exact all.1
  | @later o next s x s' o' t step rest ih => exact ih (all.2 x)

/-! ## Tests along a run -/

variable (M) in
def checks (test : S → Op → Bool) (w : W) : Program Op Resp α → S → Bool
  | .ret _, _ => true
  | .op o next, s => test s o && match M.exec w o s with
      | .ok (x, s') => checks test w (next x) s'
      | _ => true

theorem checks_visits {test : S → Op → Bool} (passed : M.checks test w p s = true) {o : Op} {t : S}
    (visits : M.Visits w p s o t) : test t o = true := by
  induction visits with
  | here =>
      unfold checks at passed
      exact (Bool.and_eq_true_iff.mp passed).1
  | later step rest ih =>
      unfold checks at passed
      rw [step] at passed
      exact ih (Bool.and_eq_true_iff.mp passed).2

theorem visits_of_checks {test : S → Op → Bool} (failed : M.checks test w p s = false) :
    ∃ o t, M.Visits w p s o t ∧ test t o = false := by
  induction p generalizing s with
  | ret a => cases failed
  | op o next ih =>
      unfold checks at failed
      rcases Bool.and_eq_false_iff.mp failed with here | later
      · exact ⟨o, s, .here, here⟩
      · cases step : M.exec w o s with
        | ok result =>
            rw [step] at later
            obtain ⟨o', t, visits, failed'⟩ := ih _ later
            exact ⟨o', t, .later step visits, failed'⟩
        | _ =>
            rw [step] at later
            cases later

end Machine

end FileServer
