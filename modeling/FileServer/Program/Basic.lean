import Mathlib.Logic.Basic

/-!
# Programs over a signature of operations

A program is a tree of operations: it either returns a value or performs an operation and goes on
with its answer. The same tree is run alone (`Program/Machine.lean`) and interleaved with other
programs (`Program/Interleave.lean`).
-/

namespace FileServer

inductive Program (Op : Type) (Resp : Op → Type) (α : Type) : Type where
  | ret (a : α)
  | op (o : Op) (next : Resp o → Program Op Resp α)

namespace Program
variable {Op : Type} {Resp : Op → Type} {Γ α β γ : Type}

def bind : Program Op Resp α → (α → Program Op Resp β) → Program Op Resp β
  | .ret a, k => k a
  | .op o next, k => .op o fun x => (next x).bind k

instance : Monad (Program Op Resp) where
  pure := .ret
  bind := Program.bind

def perform (o : Op) : Program Op Resp (Resp o) := .op o .ret

def next? : Program Op Resp α → Option Op
  | .ret _ => none
  | .op o _ => some o

theorem next?_eq_some {p : Program Op Resp α} {o : Op} (h : p.next? = some o) :
    ∃ next, p = .op o next := by
  cases p with
  | ret a => cases h
  | op o' next =>
      cases h
      exact ⟨next, rfl⟩

@[simp] theorem bind_ret (p : Program Op Resp α) : p.bind .ret = p := by
  induction p with
  | ret a => rfl
  | op o next ih => exact congrArg (Program.op o) (funext ih)

theorem bind_assoc (p : Program Op Resp α) (k : α → Program Op Resp β)
    (l : β → Program Op Resp γ) : (p.bind k).bind l = p.bind fun a => (k a).bind l := by
  induction p with
  | ret a => rfl
  | op o next ih => exact congrArg (Program.op o) (funext ih)

instance : LawfulMonad (Program Op Resp) :=
  LawfulMonad.mk' (m := Program Op Resp) bind_ret (fun _ _ => rfl) bind_assoc

/-! ## Disciplines

A discipline says, for a ghost state, which operations may be performed and which answers and
ghost states may follow. `wp D p post g` holds when `p`, started in ghost state `g`, keeps to the
discipline along every branch and ends in `post`. -/

structure Discipline (Op : Type) (Resp : Op → Type) (Γ : Type) where
  pre : Γ → Op → Prop
  post : Γ → (o : Op) → Resp o → Γ → Prop

def wp (D : Discipline Op Resp Γ) : Program Op Resp α → (α → Γ → Prop) → Γ → Prop
  | .ret a, post, g => post a g
  | .op o next, post, g => D.pre g o ∧ ∀ x g', D.post g o x g' → wp D (next x) post g'

variable {D : Discipline Op Resp Γ}

@[simp] theorem wp_ret (a : α) (post : α → Γ → Prop) (g : Γ) :
    wp D (.ret a : Program Op Resp α) post g ↔ post a g := Iff.rfl

@[simp] theorem wp_pure (a : α) (post : α → Γ → Prop) (g : Γ) :
    wp D (pure a : Program Op Resp α) post g ↔ post a g := Iff.rfl

@[simp] theorem wp_op (o : Op) (next : Resp o → Program Op Resp α) (post : α → Γ → Prop) (g : Γ) :
    wp D (.op o next) post g ↔ D.pre g o ∧ ∀ x g', D.post g o x g' → wp D (next x) post g' := Iff.rfl

@[simp] theorem wp_perform (o : Op) (post : Resp o → Γ → Prop) (g : Γ) :
    wp D (perform o) post g ↔ D.pre g o ∧ ∀ x g', D.post g o x g' → post x g' := Iff.rfl

theorem wp_bind_eq (p : Program Op Resp α) (k : α → Program Op Resp β) (post : β → Γ → Prop)
    (g : Γ) : wp D (p.bind k) post g ↔ wp D p (fun a => wp D (k a) post) g := by
  induction p generalizing g with
  | ret a => exact Iff.rfl
  | op o next ih => simp only [Program.bind, wp_op, ih]

@[simp] theorem wp_bind (p : Program Op Resp α) (k : α → Program Op Resp β) (post : β → Γ → Prop)
    (g : Γ) : wp D (p >>= k) post g ↔ wp D p (fun a => wp D (k a) post) g :=
  wp_bind_eq p k post g

theorem wp_ite {c : Prop} [Decidable c] {p q : Program Op Resp α} {post : α → Γ → Prop} {g : Γ}
    (pos : c → wp D p post g) (neg : ¬c → wp D q post g) : wp D (if c then p else q) post g := by
  by_cases h : c
  · rw [if_pos h]
    exact pos h
  · rw [if_neg h]
    exact neg h

theorem wp_mono {p : Program Op Resp α} {post post' : α → Γ → Prop} {g : Γ}
    (h : wp D p post g) (le : ∀ a g', post a g' → post' a g') : wp D p post' g := by
  induction p generalizing g with
  | ret a => exact le a g h
  | op o next ih => exact ⟨h.1, fun x g' allowed => ih x (h.2 x g' allowed)⟩

def Discipline.prod {Γ Δ : Type} (D : Discipline Op Resp Γ) (E : Discipline Op Resp Δ) :
    Discipline Op Resp (Γ × Δ) where
  pre g o := D.pre g.1 o ∧ E.pre g.2 o
  post g o x g' := D.post g.1 o x g'.1 ∧ E.post g.2 o x g'.2

theorem wp_prod {Δ : Type} {E : Discipline Op Resp Δ} {p : Program Op Resp α} {post : α → Γ → Prop}
    {post' : α → Δ → Prop} {g : Γ} {d : Δ} (left : wp D p post g) (right : wp E p post' d) :
    wp (D.prod E) p (fun a both => post a both.1 ∧ post' a both.2) (g, d) := by
  induction p generalizing g d with
  | ret a => exact ⟨left, right⟩
  | op o next ih =>
      refine ⟨⟨left.1, right.1⟩, fun x both allowed => ?_⟩
      exact ih x (left.2 x both.1 allowed.1) (right.2 x both.2 allowed.2)

/-! ## What may come -/

/-- The program may perform an operation in `goal` before one that is answered as in `stop`. -/
def Meets (goal : Op → Prop) (stop : (o : Op) → Resp o → Prop) : Program Op Resp α → Prop
  | .ret _ => False
  | .op o next => goal o ∨ ∃ x, ¬stop o x ∧ (next x).Meets goal stop

/-- The program performs an operation in `goal`, whatever it is answered, before one answered as in
`stop`. -/
def Must (goal : Op → Prop) (stop : (o : Op) → Resp o → Prop) : Program Op Resp α → Prop
  | .ret _ => False
  | .op o next => goal o ∨ ∀ x, ¬stop o x ∧ (next x).Must goal stop

variable {goal : Op → Prop} {stop : (o : Op) → Resp o → Prop}

/-- What the discipline asks for at the goal, and asks for earlier if it asks for it later. -/
theorem Meets.of_wp {P : Γ → Prop} {p : Program Op Resp α} {post : α → Γ → Prop} {g : Γ}
    (there : ∀ g o, D.pre g o → goal o → P g)
    (back : ∀ g o x, D.pre g o → ¬stop o x → ∃ g', D.post g o x g' ∧ (P g' → P g))
    (meets : p.Meets goal stop) (safe : wp D p post g) : P g := by
  induction p generalizing g with
  | ret a => exact meets.elim
  | op o next ih =>
      rcases meets with now | ⟨x, onward, later⟩
      · exact there g o safe.1 now
      · obtain ⟨g', allowed, earlier⟩ := back g o x safe.1 onward
        exact earlier (ih x later (safe.2 x g' allowed))

end Program

end FileServer
