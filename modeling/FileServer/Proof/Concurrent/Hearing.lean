import FileServer.Proof.Concurrent.HandBack

/-!
# What `main` knows of the signal

`main` accepts a client only if the signal that it has last read is not `SIGHUP`.
-/

namespace FileServer
open Program

inductive Hearing where
  | main (last : Option Nat)
  | worker

namespace Hearing

def allows : Hearing → LoopOp → Prop
  | .main last, .accept _ => ∃ signal, last = some signal ∧ signal ≠ SIGHUP
  | .worker, .accept _ | .worker, .readSignal _ => False
  | _, _ => True

def after : Hearing → (o : LoopOp) → o.Resp → Hearing
  | .main _, .signal, signal => .main (some signal)
  | .main _, .readSignal _, _ => .main none
  | hearing, _, _ => hearing

end Hearing

def hearingDiscipline : Discipline LoopOp LoopOp.Resp Hearing where
  pre := Hearing.allows
  post hearing o x hearing' := hearing' = hearing.after o x

theorem wp_hear {o : LoopOp} {post : o.Resp → Hearing → Prop} {hearing : Hearing} :
    wp hearingDiscipline (act o) post hearing ↔
      hearing.allows o ∧ ∀ x, post x (hearing.after o x) := by
  simp [hearingDiscipline]

section
variable {W : Type} {own : OwnFds}

theorem hears_scan (fresh heard : Nat) (ready : List Nat) (last : Option Nat) :
    wp hearingDiscipline (scan own fresh heard ready) (fun _ hearing => ∃ last, hearing = .main last)
      (.main last) := by
  induction ready generalizing last with
  | nil => exact ⟨last, rfl⟩
  | cons i ready ih =>
      unfold scan
      apply wp_ite
      · intro _
        rw [wp_bind, wp_hear]
        exact ⟨trivial, fun _ => ih none⟩
      · intro _
        rw [wp_bind, wp_hear]
        refine ⟨trivial, fun signal => ?_⟩
        apply wp_ite
        · intro listens
          rw [wp_bind, wp_hear]
          exact ⟨⟨signal, rfl, listens.2⟩, fun _ => ih _⟩
        · intro _
          apply wp_ite
          · intro _
            unfold checkPipeForFd
            rw [wp_bind, wp_bind, wp_hear]
            refine ⟨trivial, fun fdOpen => ?_⟩
            rw [wp_hear]
            exact ⟨trivial, fun _ => ih _⟩
          · intro _
            apply wp_ite
            · intro _
              rw [wp_bind, wp_hear]
              exact ⟨trivial, fun _ => ih _⟩
            · intro _
              exact ih _

theorem hears_mainIteration (fresh heard : Nat) (ready : List Nat) (last : Option Nat) :
    wp hearingDiscipline (mainIteration own fresh heard ready) (fun _ _ => True) (.main last) := by
  unfold mainIteration
  rw [wp_bind, wp_hear]
  refine ⟨trivial, fun _ => ?_⟩
  rw [wp_bind]
  apply wp_mono (hears_scan fresh heard ready last)
  rintro _ _ ⟨last, rfl⟩
  rw [wp_bind, wp_hear]
  refine ⟨trivial, fun _ => ?_⟩
  rw [wp_hear]
  exact ⟨trivial, fun _ => trivial⟩

theorem hears_poolWorker (hangsUp : Nat → Bool) :
    wp hearingDiscipline (poolWorker hangsUp) (fun _ _ => True) .worker := by
  unfold poolWorker
  rw [wp_bind, wp_hear]
  refine ⟨trivial, fun head => ?_⟩
  cases head with
  | none => trivial
  | some fd =>
      show wp _ (clientReadReq fd (hangsUp fd)) _ _
      unfold clientReadReq
      rw [wp_bind, wp_hear]
      refine ⟨trivial, fun _ => ?_⟩
      cases hangsUp fd with
      | true => simp [hearingDiscipline, Hearing.allows]
      | false => simp [hearingDiscipline, Hearing.allows, Hearing.after]

variable [DecidableEq W]

def Heard (G : Option W → Hearing) (s : System LoopOp LoopOp.Resp (Option W) Loop) : Prop :=
  (∃ last, G none = .main last ∧ ∀ signal, last = some signal → s.state.signal = signal) ∧
    ∀ w, G (some w) = .worker

theorem exec_signal {o : LoopOp} {x : o.Resp} {s s' : Loop} (step : Loop.exec own o s = .ok (x, s'))
    (other : ∀ signal, o ≠ .readSignal signal) : s'.signal = s.signal := by
  cases o with
  | readSignal signal => exact absurd rfl (other signal)
  | select | accept =>
      simp only [Loop.exec] at step
      split at step <;> cases step
      rfl
  | readOpen | readFd | queueTakeHead =>
      simp only [Loop.exec] at step
      split at step
      · grind
      · grind
  | _ =>
      cases step
      rfl

theorem Hearing.main_after {last : Option Nat} {o : LoopOp} {x : o.Resp} {s s' : Loop}
    (step : Loop.exec own o s = .ok (x, s')) (heard : ∀ signal, last = some signal → s.signal = signal) :
    ∃ last', (Hearing.main last).after o x = .main last' ∧
      ∀ signal, last' = some signal → s'.signal = signal := by
  cases o with
  | readSignal signal => exact ⟨none, rfl, nofun⟩
  | signal =>
      cases step
      exact ⟨_, rfl, fun _ same => Option.some.inj same⟩
  | _ =>
      refine ⟨last, rfl, fun signal same => ?_⟩
      rw [exec_signal step nofun]
      exact heard signal same

theorem Hearing.worker_after (o : LoopOp) (x : o.Resp) : Hearing.worker.after o x = .worker := by
  cases o <;> rfl

theorem preserved_heard (admissible : System LoopOp LoopOp.Resp (Option W) Loop → Option W → Prop) :
    Machine.Preserved (loopMachine W own) (LoopStarts own) admissible (Loop.initial own)
      hearingDiscipline (fun _ => True) Heard where
  init := by
    refine ⟨fun t => if t = none then .main none else .worker, ⟨⟨none, rfl, nofun⟩, fun _ => rfl⟩,
      fun _ => trivial⟩
  start := by
    rintro G s t p ⟨⟨last, main, heard⟩, workers⟩ - - starts
    refine ⟨G t, ?_, ?_⟩
    · rw [Function.update_eq_self]
      exact ⟨⟨last, main, heard⟩, workers⟩
    · cases starts with
      | main fresh read ready =>
          rw [main]
          exact hears_mainIteration fresh read ready last
      | worker w hangsUp =>
          rw [workers w]
          exact hears_poolWorker hangsUp
  exec := by
    rintro G s t o next x state ⟨⟨last, main, heard⟩, workers⟩ - - - allowed step
    refine ⟨(G t).after o x, rfl, ?_⟩
    cases t with
    | none =>
        obtain ⟨last', after, heard'⟩ := Hearing.main_after step heard
        rw [main, after]
        exact ⟨⟨last', Function.update_self .., heard'⟩, workers⟩
    | some w =>
        have unread (signal : Nat) : o ≠ .readSignal signal := by
          rintro rfl
          rw [workers w] at allowed
          exact allowed
        rw [workers w, Hearing.worker_after, ← workers w, Function.update_eq_self]
        refine ⟨⟨last, main, fun signal same => ?_⟩, workers⟩
        rw [System.set_state, exec_signal step unread]
        exact heard signal same

end

end FileServer
