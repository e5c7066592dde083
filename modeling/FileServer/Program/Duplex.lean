import Mathlib.Logic.Relation
import Mathlib.Data.List.Basic

/-!
# Two processes over two queues

Each process appends to one queue and takes from the front of the other, in any order of steps. What a
process can do it can also do later, so that it is enough to look at the runs in which a process that is
ready goes first.
-/

namespace FileServer

/-- What a process does next; a `move` leads to one of the given states, if there are any. -/
inductive Action (β σ : Type) where
  | done
  | move (after : σ → Prop)
  | send (data : List β) (after : σ)
  | recv (n : Nat) (after : List β → σ)

namespace Action
variable {β σ τ : Type} {a : Action β σ} {b : Action β τ} {s : σ} {t : τ}
  {input input' output output' up down up' down' up'' down'' : List β}

inductive Fires : Action β σ → List β → List β → σ → List β → List β → Prop where
  | move {after s input output} (possible : after s) : Fires (.move after) input output s input output
  | send {data s input output} : Fires (.send data s) input output s input (output ++ data)
  | recv {n after input output} (enough : n ≤ input.length) :
      Fires (.recv n after) input output (after (input.take n)) (input.drop n) output

theorem Fires.of_move {after : σ → Prop} (fires : (Action.move after).Fires input output s input' output') :
    after s ∧ input' = input ∧ output' = output := by
  cases fires with
  | move possible => exact ⟨possible, rfl, rfl⟩

theorem Fires.of_send {data : List β} {s' : σ} (fires : (Action.send data s).Fires input output s' input' output') :
    s' = s ∧ input' = input ∧ output' = output ++ data := by
  cases fires
  exact ⟨rfl, rfl, rfl⟩

theorem Fires.of_recv {n : Nat} {after : List β → σ}
    (fires : (Action.recv n after).Fires input output s input' output') :
    s = after (input.take n) ∧ input' = input.drop n ∧ output' = output := by
  cases fires
  exact ⟨rfl, rfl, rfl⟩

def Ready (input : List β) : Action β σ → Prop
  | .done => False
  | .move after => ∃ s, after s
  | .send _ _ => True
  | .recv n _ => n ≤ input.length

theorem Ready.fires (ready : a.Ready input) (output : List β) :
    ∃ s input' output', a.Fires input output s input' output' := by
  cases a with
  | done => exact ready.elim
  | move after =>
      obtain ⟨s, possible⟩ := ready
      exact ⟨s, input, output, .move possible⟩
  | send data s => exact ⟨s, input, output ++ data, .send⟩
  | recv n after => exact ⟨_, _, output, .recv ready⟩

theorem Fires.ready (fires : a.Fires input output s input' output') : a.Ready input := by
  cases fires with
  | move possible => exact ⟨_, possible⟩
  | send => trivial
  | recv enough => exact enough

theorem Ready.more (ready : a.Ready input) (rest : List β) : a.Ready (input ++ rest) := by
  cases a with
  | recv n after =>
      have enough : n ≤ input.length := ready
      show n ≤ (input ++ rest).length
      rw [List.length_append]
      exact Nat.le_add_right_of_le enough
  | _ => exact ready

theorem Fires.appends (fires : a.Fires input output s input' output') :
    ∃ sent, output' = output ++ sent ∧ ∀ other, a.Fires input other s input' (other ++ sent) := by
  cases fires with
  | move possible =>
      refine ⟨[], (List.append_nil _).symm, fun other => ?_⟩
      rw [List.append_nil]
      exact .move possible
  | @send data => exact ⟨data, rfl, fun _ => .send⟩
  | recv enough =>
      refine ⟨[], (List.append_nil _).symm, fun other => ?_⟩
      rw [List.append_nil]
      exact .recv enough

theorem Fires.more (fires : a.Fires input output s input' output') (rest : List β) :
    a.Fires (input ++ rest) output s (input' ++ rest) output' := by
  cases fires with
  | move possible => exact .move possible
  | send => exact .send
  | @recv n after _ _ enough =>
      have enough' : n ≤ (input ++ rest).length := by simp; omega
      have fires : (Action.recv n after).Fires (input ++ rest) output _ _ output := .recv enough'
      rw [List.take_append_of_le_length enough, List.drop_append_of_le_length enough] at fires
      exact fires

theorem Fires.of_more {rest : List β} (ready : a.Ready input)
    (fires : a.Fires (input ++ rest) output s input' output') :
    ∃ left, input' = left ++ rest ∧ a.Fires input output s left output' := by
  cases fires with
  | move possible => exact ⟨input, rfl, .move possible⟩
  | send => exact ⟨input, rfl, .send⟩
  | @recv n after _ _ _ =>
      have enough : n ≤ input.length := ready
      rw [List.take_append_of_le_length enough, List.drop_append_of_le_length enough]
      exact ⟨input.drop n, rfl, .recv enough⟩

/-- A process that was ready before the other one's step could have gone first. -/
theorem Fires.swap (ready : b.Ready up) (first : a.Fires down up s down' up')
    (second : b.Fires up' down' t up'' down'') :
    ∃ up₁ down₁, b.Fires up down t up₁ down₁ ∧ a.Fires down₁ up₁ s down'' up'' := by
  obtain ⟨sent, rfl, anywhere⟩ := first.appends
  obtain ⟨left, rfl, early⟩ := Fires.of_more ready second
  obtain ⟨answer, rfl, anywhere'⟩ := early.appends
  exact ⟨left, down ++ answer, anywhere' down, (anywhere left).more answer⟩

end Action

structure Duplex (β σ τ : Type) where
  left : σ
  right : τ
  up : List β
  down : List β

namespace Duplex
variable {β σ τ : Type}

section
variable (l : σ → Action β σ) (r : τ → Action β τ)

def LeftStep (c d : Duplex β σ τ) : Prop :=
  d.right = c.right ∧ (l c.left).Fires c.down c.up d.left d.down d.up

def RightStep (c d : Duplex β σ τ) : Prop :=
  d.left = c.left ∧ (r c.right).Fires c.up c.down d.right d.up d.down

def Step (c d : Duplex β σ τ) : Prop := LeftStep l c d ∨ RightStep r c d

abbrev Reaches : Duplex β σ τ → Duplex β σ τ → Prop := Relation.ReflTransGen (Step l r)

/-- Every run from here comes to rest, and rests in `P`. -/
inductive Inevitably (P : Duplex β σ τ → Prop) : Duplex β σ τ → Prop where
  | mk {c} (onward : ∀ d, Step l r c d → Inevitably P d) (rest : (∀ d, ¬Step l r c d) → P c) :
      Inevitably P c

/-- Whenever the left process is done, the right one inevitably comes to rest in `P`. -/
def Orderly (P : Duplex β σ τ → Prop) (c : Duplex β σ τ) : Prop :=
  ∀ d, Reaches l r c d → l d.left = .done → Inevitably l r P d

end

variable {l : σ → Action β σ} {r : τ → Action β τ} {P : Duplex β σ τ → Prop}
  {c c₁ d d' : Duplex β σ τ}

theorem LeftStep.ready (first : LeftStep l c d) (ready : (r c.right).Ready c.up) :
    (r d.right).Ready d.up := by
  obtain ⟨sent, same, -⟩ := first.2.appends
  rw [first.1, same]
  exact ready.more sent

theorem RightStep.ready (first : RightStep r c d) (ready : (l c.left).Ready c.down) :
    (l d.left).Ready d.down := by
  obtain ⟨sent, same, -⟩ := first.2.appends
  rw [first.1, same]
  exact ready.more sent

theorem swap_left (ready : (l c.left).Ready c.down) (first : RightStep r c c₁)
    (second : LeftStep l c₁ d) : ∃ c', LeftStep l c c' ∧ RightStep r c' d := by
  obtain ⟨same, fires⟩ := second
  rw [first.1] at fires
  obtain ⟨down, up, early, late⟩ := first.2.swap ready fires
  exact ⟨⟨d.left, c.right, up, down⟩, ⟨rfl, early⟩, rfl, by rw [same]; exact late⟩

theorem swap_right (ready : (r c.right).Ready c.up) (first : LeftStep l c c₁)
    (second : RightStep r c₁ d) : ∃ c', RightStep r c c' ∧ LeftStep l c' d := by
  obtain ⟨same, fires⟩ := second
  rw [first.1] at fires
  obtain ⟨up, down, early, late⟩ := first.2.swap ready fires
  exact ⟨⟨c.left, d.right, up, down⟩, ⟨rfl, early⟩, rfl, by rw [same]; exact late⟩

theorem not_leftStep (ended : l c.left = .done) : ¬LeftStep l c d := by
  intro step
  have fires := step.2
  rw [ended] at fires
  cases fires

theorem Reaches.left_first (reaches : Reaches l r c d) (ready : (l c.left).Ready c.down)
    (ended : l d.left = .done) : ∃ c', LeftStep l c c' ∧ Reaches l r c' d := by
  induction reaches using Relation.ReflTransGen.head_induction_on with
  | refl =>
      rw [ended] at ready
      exact ready.elim
  | head step rest ih =>
      rcases step with first | first
      · exact ⟨_, first, rest⟩
      · obtain ⟨c', second, onward⟩ := ih (first.ready ready)
        obtain ⟨c'', early, late⟩ := swap_left ready first second
        exact ⟨c'', early, .head (.inr late) onward⟩

theorem Reaches.right_first (reaches : Reaches l r c d) (ready : (r c.right).Ready c.up) :
    (∃ c', RightStep r c c' ∧ Reaches l r c' d) ∨ Relation.ReflTransGen (LeftStep l) c d := by
  induction reaches using Relation.ReflTransGen.head_induction_on with
  | refl => exact .inr .refl
  | head step rest ih =>
      rcases step with first | first
      · rcases ih (first.ready ready) with ⟨c', second, onward⟩ | alone
        · obtain ⟨c'', early, late⟩ := swap_right ready first second
          exact .inl ⟨c'', early, .head (.inl late) onward⟩
        · exact .inr (.head first alone)
      · exact .inl ⟨_, first, rest⟩

theorem pull_right (alone : Relation.ReflTransGen (LeftStep l) c d) (ready : (r c.right).Ready c.up)
    (last : RightStep r d d') :
    ∃ c', RightStep r c c' ∧ Relation.ReflTransGen (LeftStep l) c' d' := by
  induction alone using Relation.ReflTransGen.head_induction_on with
  | refl => exact ⟨d', last, .refl⟩
  | head first rest ih =>
      obtain ⟨c', second, onward⟩ := ih (first.ready ready)
      obtain ⟨c'', early, late⟩ := swap_right ready first second
      exact ⟨c'', early, .head late onward⟩

theorem still_ready (alone : Relation.ReflTransGen (LeftStep l) c d)
    (ready : (r c.right).Ready c.up) : (r d.right).Ready d.up := by
  induction alone with
  | refl => exact ready
  | tail _ step ih => exact step.ready ih

namespace Orderly

theorem left (ready : (l c.left).Ready c.down) (all : ∀ d, LeftStep l c d → Orderly l r P d) :
    Orderly l r P c := by
  intro d reaches ended
  obtain ⟨c', first, rest⟩ := Reaches.left_first reaches ready ended
  exact all c' first d rest ended

theorem right (ready : (r c.right).Ready c.up) (all : ∀ d, RightStep r c d → Orderly l r P d) :
    Orderly l r P c := by
  intro d reaches ended
  rcases Reaches.right_first reaches ready with ⟨c', first, rest⟩ | alone
  · exact all c' first d rest ended
  · refine .mk (fun d' step => ?_) fun none => ?_
    · rcases step with step | step
      · exact absurd step (not_leftStep ended)
      · obtain ⟨c', first, rest⟩ := pull_right alone ready step
        have onward : Reaches l r c' d' :=
          Relation.ReflTransGen.mono (fun _ _ step => Or.inl step) _ _ rest
        exact all c' first d' onward (by rw [step.1, ended])
    · obtain ⟨t, up, down, fires⟩ := (still_ready alone ready).fires d.down
      exact absurd (.inr ⟨rfl, fires⟩) (none ⟨d.left, t, up, down⟩)

theorem stuck {after : σ → Prop} (action : l c.left = .move after) (nowhere : ∀ s, ¬after s) :
    Orderly l r P c := by
  have same : ∀ d, Reaches l r c d → d.left = c.left := by
    intro d reaches
    induction reaches with
    | refl => rfl
    | tail _ step ih =>
        rcases step with step | step
        · have ready := step.2.ready
          rw [ih, action] at ready
          obtain ⟨s, possible⟩ := ready
          exact absurd possible (nowhere s)
        · exact step.1.trans ih
  intro d reaches ended
  rw [same d reaches, action] at ended
  cases ended

section
variable {s s' : σ} {u : τ} {up down data front rest : List β} {n : Nat}

theorem left_send (action : l s = .send data s') (onward : Orderly l r P ⟨s', u, up ++ data, down⟩) :
    Orderly l r P ⟨s, u, up, down⟩ := by
  refine left (action ▸ trivial) ?_
  rintro ⟨s₁, u₁, up₁, down₁⟩ ⟨rfl, fires⟩
  dsimp only at fires
  rw [action] at fires
  obtain ⟨rfl, rfl, rfl⟩ := fires.of_send
  exact onward

theorem left_recv {after : List β → σ} (action : l s = .recv n after) (length : front.length = n)
    (onward : Orderly l r P ⟨after front, u, up, rest⟩) : Orderly l r P ⟨s, u, up, front ++ rest⟩ := by
  have enough : n ≤ (front ++ rest).length := by simp [length]
  refine left (action ▸ enough) ?_
  rintro ⟨s₁, u₁, up₁, down₁⟩ ⟨rfl, fires⟩
  dsimp only at fires
  rw [action] at fires
  obtain ⟨rfl, rfl, rfl⟩ := fires.of_recv
  rw [List.take_left' length, List.drop_left' length]
  exact onward

theorem left_move {after : σ → Prop} (action : l s = .move after)
    (onward : ∀ s', after s' → Orderly l r P ⟨s', u, up, down⟩) : Orderly l r P ⟨s, u, up, down⟩ := by
  by_cases somewhere : ∃ s', after s'
  · refine left (action ▸ somewhere) ?_
    rintro ⟨s₁, u₁, up₁, down₁⟩ ⟨rfl, fires⟩
    dsimp only at fires
    rw [action] at fires
    obtain ⟨possible, rfl, rfl⟩ := fires.of_move
    exact onward s₁ possible
  · exact stuck action fun s' possible => somewhere ⟨s', possible⟩

theorem right_send {u' : τ} (action : r u = .send data u')
    (onward : Orderly l r P ⟨s, u', up, down ++ data⟩) : Orderly l r P ⟨s, u, up, down⟩ := by
  refine right (action ▸ trivial) ?_
  rintro ⟨s₁, u₁, up₁, down₁⟩ ⟨rfl, fires⟩
  dsimp only at fires
  rw [action] at fires
  obtain ⟨rfl, rfl, rfl⟩ := fires.of_send
  exact onward

theorem right_recv {after : List β → τ} (action : r u = .recv n after) (length : front.length = n)
    (onward : Orderly l r P ⟨s, after front, rest, down⟩) : Orderly l r P ⟨s, u, front ++ rest, down⟩ := by
  have enough : n ≤ (front ++ rest).length := by simp [length]
  refine right (action ▸ enough) ?_
  rintro ⟨s₁, u₁, up₁, down₁⟩ ⟨rfl, fires⟩
  dsimp only at fires
  rw [action] at fires
  obtain ⟨rfl, rfl, rfl⟩ := fires.of_recv
  rw [List.take_left' length, List.drop_left' length]
  exact onward

theorem right_move {after : τ → Prop} (action : r u = .move after) (somewhere : ∃ u', after u')
    (onward : ∀ u', after u' → Orderly l r P ⟨s, u', up, down⟩) : Orderly l r P ⟨s, u, up, down⟩ := by
  refine right (action ▸ somewhere) ?_
  rintro ⟨s₁, u₁, up₁, down₁⟩ ⟨rfl, fires⟩
  dsimp only at fires
  rw [action] at fires
  obtain ⟨possible, rfl, rfl⟩ := fires.of_move
  exact onward u₁ possible

theorem after_left (orderly : Orderly l r P ⟨s, u, up, down⟩)
    (fires : (l s).Fires down up s' rest data) : Orderly l r P ⟨s', u, data, rest⟩ := by
  have step : LeftStep l ⟨s, u, up, down⟩ ⟨s', u, data, rest⟩ := ⟨rfl, fires⟩
  exact fun d reaches => orderly d (.head (.inl step) reaches)

theorem after_right {u' : τ} (orderly : Orderly l r P ⟨s, u, up, down⟩)
    (fires : (r u).Fires up down u' rest data) : Orderly l r P ⟨s, u', rest, data⟩ := by
  have step : RightStep r ⟨s, u, up, down⟩ ⟨s, u', rest, data⟩ := ⟨rfl, fires⟩
  exact fun d reaches => orderly d (.head (.inr step) reaches)

end

theorem at_rest (orderly : Orderly l r P c) (ended : l c.left = .done) (waits : ¬(r c.right).Ready c.up) : P c := by
  have inevitable := orderly c .refl ended
  cases inevitable with
  | mk onward rest =>
      refine rest fun d step => ?_
      rcases step with step | step
      · exact not_leftStep ended step
      · exact waits step.2.ready

theorem halted (waits : ¬(l c.left).Ready c.down) (waits' : ¬(r c.right).Ready c.up)
    (rest : l c.left = .done → P c) : Orderly l r P c := by
  have none : ∀ d, ¬Step l r c d := by
    rintro d (step | step)
    · exact waits step.2.ready
    · exact waits' step.2.ready
  intro d reaches ended
  rcases reaches.cases_head with rfl | ⟨d', step, -⟩
  · exact .mk (fun d' step => absurd step (none d')) fun _ => rest ended
  · exact absurd step (none d')

end Orderly

end Duplex

end FileServer
