import FileServer.Program.Machine
import Mathlib.Logic.Function.Basic

/-!
# Interleaving programs

Each worker runs its own program over one shared state; a step is one operation of one worker.
`Reachable admissible` collects the states of the runs in which every operation was performed from
a configuration that `admissible` allows.
-/

namespace FileServer
open Program

variable {Op : Type} {Resp : Op → Type} {W S ε Γ α : Type}

structure System (Op : Type) (Resp : Op → Type) (W S : Type) where
  threads : W → Program Op Resp Unit
  state : S

namespace System
variable [DecidableEq W]

def set (s : System Op Resp W S) (w : W) (p : Program Op Resp Unit) (state : S) :
    System Op Resp W S :=
  ⟨Function.update s.threads w p, state⟩

@[simp] theorem set_state (s : System Op Resp W S) (w : W) (p : Program Op Resp Unit)
    (state : S) : (s.set w p state).state = state := rfl

@[simp] theorem set_threads_self (s : System Op Resp W S) (w : W) (p : Program Op Resp Unit)
    (state : S) : (s.set w p state).threads w = p := by
  simp [set]

@[simp] theorem set_threads_of_ne (s : System Op Resp W S) {w v : W} (p : Program Op Resp Unit)
    (state : S) (h : v ≠ w) : (s.set w p state).threads v = s.threads v := by
  simp [set, h]

@[simp] theorem set_set (s : System Op Resp W S) (w : W) (p q : Program Op Resp Unit)
    (state state' : S) : (s.set w p state).set w q state' = s.set w q state' := by
  simp [set]

end System

namespace Machine
variable [DecidableEq W] (M : Machine Op Resp W S ε)

/-- A step: an idle worker starts a program, or a worker performs its next operation. -/
inductive Step (starts : W → Program Op Resp Unit → Prop)
    (admissible : System Op Resp W S → W → Prop) :
    System Op Resp W S → System Op Resp W S → Prop where
  | start {s w p} (idle : s.threads w = .ret ()) (allowed : starts w p) :
      Step starts admissible s (s.set w p s.state)
  | exec {s w o next x state} (action : s.threads w = .op o next) (allowed : admissible s w)
      (step : M.exec w o s.state = .ok (x, state)) :
      Step starts admissible s (s.set w (next x) state)

inductive Reachable (starts : W → Program Op Resp Unit → Prop)
    (admissible : System Op Resp W S → W → Prop) (initial : S) : System Op Resp W S → Prop where
  | initial : Reachable starts admissible initial ⟨fun _ => .ret (), initial⟩
  | step {s s'} (before : Reachable starts admissible initial s)
      (step : M.Step starts admissible s s') : Reachable starts admissible initial s'

variable {M} {starts : W → Program Op Resp Unit → Prop}
  {admissible : System Op Resp W S → W → Prop} {initial : S}

theorem Reachable.invariant {I : S → Prop} (init : I initial)
    (exec : ∀ s w o next x state, I s.state → s.threads w = .op o next → admissible s w →
      M.exec w o s.state = .ok (x, state) → I state)
    {s : System Op Resp W S} (reachable : M.Reachable starts admissible initial s) : I s.state := by
  induction reachable with
  | initial => exact init
  | step before step ih =>
      cases step with
      | start idle allowed => exact ih
      | exec action allowed step => exact exec _ _ _ _ _ _ ih action allowed step

/-- What an invariant with a ghost state for each worker has to satisfy: it holds at the start,
it survives the start of a program, and it survives each operation that keeps to the discipline. -/
structure Preserved (M : Machine Op Resp W S ε) (starts : W → Program Op Resp Unit → Prop)
    (admissible : System Op Resp W S → W → Prop) (initial : S)
    (D : Discipline Op Resp Γ) (done : Γ → Prop)
    (I : (W → Γ) → System Op Resp W S → Prop) : Prop where
  init : ∃ G, I G ⟨fun _ => .ret (), initial⟩ ∧ ∀ w, done (G w)
  start : ∀ G s w p, I G s → s.threads w = .ret () → done (G w) → starts w p →
    ∃ g, I (Function.update G w g) (s.set w p s.state) ∧ wp D p (fun _ => done) g
  exec : ∀ G s w o next x state, I G s → (∀ v, wp D (s.threads v) (fun _ => done) (G v)) →
    s.threads w = .op o next → admissible s w → D.pre (G w) o →
    M.exec w o s.state = .ok (x, state) →
    ∃ g, D.post (G w) o x g ∧ I (Function.update G w g) (s.set w (next x) state)

/-- The invariant holds in every reachable configuration, and every worker still keeps to the
discipline from its ghost state on. -/
theorem Preserved.reachable {D : Discipline Op Resp Γ} {done : Γ → Prop}
    {I : (W → Γ) → System Op Resp W S → Prop}
    (preserved : Preserved M starts admissible initial D done I) {s : System Op Resp W S}
    (reachable : M.Reachable starts admissible initial s) :
    ∃ G, I G s ∧ ∀ w, wp D (s.threads w) (fun _ => done) (G w) := by
  induction reachable with
  | initial => exact preserved.init
  | @step s _ _ step ih =>
      obtain ⟨G, inv, safe⟩ := ih
      cases step with
      | @start w p idle allowed =>
          have finished : done (G w) := by
            have h := safe w
            rwa [idle, wp_ret] at h
          obtain ⟨g, inv', safe'⟩ := preserved.start G s w p inv idle finished allowed
          refine ⟨_, inv', fun v => ?_⟩
          by_cases same : v = w
          · subst same; simpa using safe'
          · simpa [same] using safe v
      | @exec w o next x state action allowed step =>
          have h := safe w
          rw [action, wp_op] at h
          obtain ⟨g, ghost, inv'⟩ :=
            preserved.exec G s w o next x state inv safe action allowed h.1 step
          refine ⟨_, inv', fun v => ?_⟩
          by_cases same : v = w
          · subst same; simpa using h.2 x g ghost
          · simpa [same] using safe v

/-! ## Schedules -/

inductive Move (Op : Type) (Resp : Op → Type) (W : Type) : Type where
  | start (w : W) (p : Program Op Resp Unit)
  | exec (w : W)

def move (M : Machine Op Resp W S ε) (test : System Op Resp W S → W → Bool)
    (s : System Op Resp W S) : Move Op Resp W → Option (System Op Resp W S)
  | .start w p => match s.threads w with
      | .ret () => some (s.set w p s.state)
      | .op _ _ => none
  | .exec w => match s.threads w with
      | .ret () => none
      | .op o next => match M.exec w o s.state with
          | .ok (x, state) => if test s w then some (s.set w (next x) state) else none
          | _ => none

def schedule (M : Machine Op Resp W S ε) (test : System Op Resp W S → W → Bool) :
    List (Move Op Resp W) → System Op Resp W S → Option (System Op Resp W S)
  | [], s => some s
  | m :: ms, s => (M.move test s m).bind (M.schedule test ms)

def Move.startsFrom (starts : W → Program Op Resp Unit → Prop) : Move Op Resp W → Prop
  | .start w p => starts w p
  | .exec _ => True

theorem Reachable.move {test : System Op Resp W S → W → Bool} {m : Move Op Resp W}
    {s s' : System Op Resp W S} (reachable : M.Reachable starts admissible initial s)
    (sound : ∀ s w, test s w = true → admissible s w) (allowed : m.startsFrom starts)
    (executed : M.move test s m = some s') : M.Reachable starts admissible initial s' := by
  cases m with
  | start w p =>
      cases idle : s.threads w with
      | ret u =>
          simp only [Machine.move, idle, Option.some.injEq] at executed
          exact executed ▸ reachable.step (.start idle allowed)
      | op o next => simp [Machine.move, idle] at executed
  | exec w =>
      cases action : s.threads w with
      | ret u => simp [Machine.move, action] at executed
      | op o next =>
          cases step : M.exec w o s.state with
          | ok result =>
              simp only [Machine.move, action, step] at executed
              split at executed
              · rename_i passes
                cases executed
                exact reachable.step (.exec action (sound s w passes) step)
              · cases executed
          | blocked => simp [Machine.move, action, step] at executed
          | spinning => simp [Machine.move, action, step] at executed
          | fault e => simp [Machine.move, action, step] at executed

theorem Reachable.schedule {test : System Op Resp W S → W → Bool} {moves : List (Move Op Resp W)}
    {s s' : System Op Resp W S} (reachable : M.Reachable starts admissible initial s)
    (sound : ∀ s w, test s w = true → admissible s w) (allowed : ∀ m ∈ moves, m.startsFrom starts)
    (executed : M.schedule test moves s = some s') :
    M.Reachable starts admissible initial s' := by
  induction moves generalizing s with
  | nil =>
      cases executed
      exact reachable
  | cons m ms ih =>
      rw [Machine.schedule, Option.bind_eq_some_iff] at executed
      obtain ⟨s₁, first, rest⟩ := executed
      have head := allowed m List.mem_cons_self
      apply ih (reachable.move sound head first) _ rest
      exact fun m' mem => allowed m' (List.mem_cons_of_mem m mem)

theorem Reachable.of_schedule (test : System Op Resp W S → W → Bool)
    (sound : ∀ s w, test s w = true → admissible s w) {moves : List (Move Op Resp W)}
    (allowed : ∀ m ∈ moves, m.startsFrom starts) {final : System Op Resp W S → Bool}
    (executed : (M.schedule test moves ⟨fun _ => .ret (), initial⟩).any final = true) :
    ∃ s, M.Reachable starts admissible initial s ∧ final s = true := by
  obtain ⟨s, ended, passes⟩ := (Option.any_eq_true ..).mp executed
  exact ⟨s, Reachable.initial.schedule sound allowed ended, passes⟩

/-! ## A program alone is a run of the system -/

theorem Reachable.run {w : W} {p : Program Op Resp Unit} {state : S}
    {s : System Op Resp W S} (reachable : M.Reachable starts (fun _ _ => True) initial s)
    (loaded : s.threads w = p) (ends : M.run w p s.state = .ok ((), state)) :
    M.Reachable starts (fun _ _ => True) initial (s.set w (.ret ()) state) := by
  induction p generalizing s with
  | ret a =>
      simp only [run_ret, Outcome.ok.injEq, Prod.mk.injEq, true_and] at ends
      have same : s.set w (.ret ()) state = s := by
        rw [← ends]
        simp [System.set, ← loaded]
      rwa [same]
  | op o next ih =>
      rw [run_op, Outcome.andThen_eq_ok] at ends
      obtain ⟨⟨x, state₁⟩, step, rest⟩ := ends
      have later := ih x (reachable.step (.exec loaded trivial step)) (by simp) (by simpa using rest)
      simpa using later

end Machine

end FileServer
