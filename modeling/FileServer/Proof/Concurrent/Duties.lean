import FileServer.Model.MainLoop
import Mathlib.Data.Fintype.Option

/-!
# Descriptors and those who have them

What `main` and the workers are at, and at which place each client descriptor is.
-/

namespace FileServer
open Program

/-! ## What a thread is doing -/

inductive Duty where
  | idle
  | atSelect
  | scanning (todo : List Nat)
  | decoding (fdOpen : Nat) (todo : List Nat)
  | updating
  | atQueue
  | taken (fd : Nat)
  | answering (fdOpen fd : Nat)
  | halfway (fdOpen fd : Nat)

namespace Duty

def allows (own : OwnFds) : Duty → LoopOp → Prop
  | .atSelect, .select _ => True
  | .scanning (i :: _), .readSignal _ => i = own.signalpipe
  | .scanning (_ :: _), .signal => True
  | .scanning (i :: _), .accept _ => i = own.listenSocket
  | .scanning (i :: _), .readOpen => i = own.pipefd
  | .scanning (i :: _), .dispatch fd => fd = i ∧ i ∉ own.all
  | .scanning [], .fdSetUpdate => True
  | .decoding a _, .readFd fdOpen => fdOpen = a
  | .updating, .testBreak => True
  | .atQueue, .queueTakeHead => True
  | .taken fd, .readCode fd' _ => fd' = fd
  | .answering _ fd, .serve fd' => fd' = fd
  | .answering a fd, .writeOpen fdOpen fd' => fdOpen = a ∧ fd' = fd
  | .halfway a fd, .writeFd fdOpen fd' => fdOpen = a ∧ fd' = fd
  | _, _ => False

def after (own : OwnFds) : Duty → (o : LoopOp) → o.Resp → Duty
  | _, .select ready, _ => .scanning ready
  | .scanning (i :: todo), .signal, signal =>
      if i = own.listenSocket ∧ signal = SIGHUP then .scanning todo else .scanning (i :: todo)
  | .scanning (_ :: todo), .readOpen, fdOpen => .decoding fdOpen todo
  | .scanning (_ :: todo), .readSignal _, _ | .scanning (_ :: todo), .accept _, _
  | .scanning (_ :: todo), .dispatch _, _ | .decoding _ todo, .readFd _, _ => .scanning todo
  | _, .fdSetUpdate, _ => .updating
  | _, .queueTakeHead, some fd => .taken fd
  | _, .readCode fd hangUp, _ => .answering (if hangUp then 0 else 1) fd
  | duty, .serve _, _ => duty
  | _, .writeOpen fdOpen fd, _ => .halfway fdOpen fd
  | _, _, _ => .idle

def client : Duty → Option Nat
  | .taken fd | .answering _ fd | .halfway _ fd => some fd
  | _ => none

def todo : Duty → List Nat
  | .scanning todo | .decoding _ todo => todo
  | _ => []

def firstRead : Duty → List Nat
  | .decoding fdOpen _ => [fdOpen]
  | _ => []

def OfMain : Duty → Prop
  | .idle | .atSelect | .scanning _ | .decoding _ _ | .updating => True
  | _ => False

def OfWorker : Duty → Prop
  | .idle | .atQueue | .taken _ | .answering _ _ | .halfway _ _ => True
  | _ => False

end Duty

def loopDiscipline (own : OwnFds) : Discipline LoopOp LoopOp.Resp Duty where
  pre := Duty.allows own
  post duty o x duty' := duty' = duty.after own o x

section
variable {own : OwnFds}

theorem wp_act {o : LoopOp} {post : o.Resp → Duty → Prop} {duty : Duty} :
    wp (loopDiscipline own) (act o) post duty ↔
      duty.allows own o ∧ ∀ x, post x (duty.after own o x) := by
  simp [loopDiscipline]

theorem wp_scan (fresh heard : Nat) (ready : List Nat) :
    wp (loopDiscipline own) (scan own fresh heard ready) (fun _ duty => duty = .scanning [])
      (.scanning ready) := by
  induction ready with
  | nil => rfl
  | cons i ready ih =>
      unfold scan
      by_cases signals : i = own.signalpipe
      · rw [if_pos signals, wp_bind, wp_act]
        exact ⟨signals, fun _ => ih⟩
      · rw [if_neg signals, wp_bind, wp_act]
        refine ⟨trivial, fun signal => ?_⟩
        by_cases listens : i = own.listenSocket
        · have notPipe : i ≠ own.pipefd := fun same => own.pipefd_ne (same.symm.trans listens)
          by_cases hup : signal = SIGHUP
          · rw [if_neg (fun h => h.2 hup), if_neg notPipe, if_neg (not_not.mpr listens)]
            simpa [Duty.after, listens, hup] using ih
          · have stays : (Duty.scanning (i :: ready)).after own .signal signal =
                .scanning (i :: ready) := by simp [Duty.after, hup]
            rw [if_pos ⟨listens, hup⟩, stays, wp_bind, wp_act]
            exact ⟨listens, fun _ => ih⟩
        · have stays : (Duty.scanning (i :: ready)).after own .signal signal =
              .scanning (i :: ready) := by simp [Duty.after, listens]
          rw [if_neg (fun h => listens h.1), stays]
          by_cases pipe : i = own.pipefd
          · rw [if_pos pipe]
            unfold checkPipeForFd
            rw [wp_bind, wp_bind, wp_act]
            refine ⟨pipe, fun fdOpen => ?_⟩
            rw [wp_act]
            exact ⟨rfl, fun _ => ih⟩
          · rw [if_neg pipe, if_pos listens, wp_bind, wp_act]
            refine ⟨⟨rfl, ?_⟩, fun _ => ih⟩
            simp [OwnFds.all, signals, listens, pipe]

theorem wp_mainIteration (fresh heard : Nat) (ready : List Nat) :
    wp (loopDiscipline own) (mainIteration own fresh heard ready) (fun _ duty => duty = .idle)
      .atSelect := by
  unfold mainIteration
  rw [wp_bind, wp_act]
  refine ⟨trivial, fun _ => ?_⟩
  rw [wp_bind]
  apply wp_mono (wp_scan fresh heard ready)
  rintro _ _ rfl
  rw [wp_bind, wp_act]
  refine ⟨trivial, fun _ => ?_⟩
  rw [wp_act]
  exact ⟨trivial, fun _ => rfl⟩

theorem wp_clientReadReq (fd : Nat) (hangUp : Bool) :
    wp (loopDiscipline own) (clientReadReq fd hangUp) (fun _ duty => duty = .idle)
      (.taken fd) := by
  unfold clientReadReq
  rw [wp_bind, wp_act]
  refine ⟨rfl, fun _ => ?_⟩
  cases hangUp with
  | true =>
      rw [if_pos rfl, wp_bind, wp_act]
      refine ⟨⟨rfl, rfl⟩, fun _ => ?_⟩
      rw [wp_act]
      exact ⟨⟨rfl, rfl⟩, fun _ => rfl⟩
  | false =>
      rw [if_neg (by decide), wp_bind, wp_act]
      refine ⟨rfl, fun _ => ?_⟩
      rw [wp_bind, wp_act]
      refine ⟨⟨rfl, rfl⟩, fun _ => ?_⟩
      rw [wp_act]
      exact ⟨⟨rfl, rfl⟩, fun _ => rfl⟩

theorem wp_poolWorker (hangsUp : Nat → Bool) :
    wp (loopDiscipline own) (poolWorker hangsUp) (fun _ duty => duty = .idle) .atQueue := by
  unfold poolWorker
  rw [wp_bind, wp_act]
  refine ⟨trivial, fun head => ?_⟩
  cases head with
  | none => rfl
  | some fd => exact wp_clientReadReq fd (hangsUp fd)

end

/-! ## Where the descriptors are -/

inductive Place (W : Type) where
  | inSet
  | queued
  | worker (w : W)
  | inFlight

/-- `place` says where each client descriptor is; `client` says whom each worker serves, and `flight`
holds the descriptors in messages on their way. -/
structure Places {W : Type} (own : OwnFds) (s : Loop) (client : W → Option Nat) (flight : List Nat)
    (place : Nat → Option (Place W)) : Prop where
  accepted : ∀ fd, fd ∈ s.accepted ↔ place fd ≠ none
  foreign : ∀ fd ∈ own.all, place fd = none
  set : ∀ fd, fd ∉ own.all → (fd ∈ s.set ↔ place fd = some .inSet)
  workSet : ∀ fd, fd ∈ s.workSet ↔ place fd ≠ none ∧ place fd ≠ some .inSet
  queue : ∀ fd, fd ∈ s.queue ↔ place fd = some .queued
  queueNodup : s.queue.Nodup
  worker : ∀ w fd, client w = some fd ↔ place fd = some (.worker w)
  inFlight : ∀ fd, fd ∈ flight ↔ place fd = some .inFlight
  flightNodup : flight.Nodup

section
variable {W : Type} {own : OwnFds} {s : Loop} {client : W → Option Nat}
  {flight : List Nat} {place : Nat → Option (Place W)} {w : W} {fd : Nat}

namespace Places

theorem accept (places : Places own s client flight place) (fresh : fd ∉ s.accepted)
    (notOwn : fd ∉ own.all) (max : Nat) (connected : Finset Nat) :
    Places own { s with
      set := insert fd s.set, max := max
      accepted := insert fd s.accepted, connected := connected } client flight
      (Function.update place fd (some .inSet)) := by
  have nowhere : place fd = none := by
    by_contra some
    exact fresh ((places.accepted fd).mpr some)
  obtain ⟨accepted, foreign, set, workSet, queue, nodup, worker, inFlight, nodup'⟩ := places
  constructor
  case queueNodup => exact nodup
  case flightNodup => exact nodup'
  all_goals grind [Function.update_apply]

theorem dispatch (places : Places own s client flight place) (mem : fd ∈ s.set)
    (notOwn : fd ∉ own.all) :
    Places own { s with
      queue := s.queue ++ [fd], set := s.set.erase fd, workSet := insert fd s.workSet }
      client flight (Function.update place fd (some .queued)) := by
  obtain ⟨accepted, foreign, set, workSet, queue, nodup, worker, inFlight, nodup'⟩ := places
  have waits := (set fd notOwn).mp mem
  constructor
  case flightNodup => exact nodup'
  all_goals grind [Function.update_apply]

theorem take [DecidableEq W] {rest : List Nat} (places : Places own s client flight place)
    (head : s.queue = fd :: rest) (idle : client w = none) :
    Places own { s with queue := rest } (Function.update client w (some fd)) flight
      (Function.update place fd (some (.worker w))) := by
  obtain ⟨accepted, foreign, set, workSet, queue, nodup, worker, inFlight, nodup'⟩ := places
  have waits : place fd = some .queued := (queue fd).mp (by simp [head])
  rw [head, List.nodup_cons] at nodup
  constructor
  case queueNodup => exact nodup.2
  case flightNodup => exact nodup'
  all_goals grind [Function.update_apply]

theorem send [DecidableEq W] (places : Places own s client flight place) (serves : client w = some fd)
    (pipe : List Nat) (sent : List (Nat × Nat)) :
    Places own { s with pipe := pipe, sent := sent } (Function.update client w none)
      (flight ++ [fd]) (Function.update place fd (some .inFlight)) := by
  obtain ⟨accepted, foreign, set, workSet, queue, nodup, worker, inFlight, nodup'⟩ := places
  have here := (worker w fd).mp serves
  constructor
  case queueNodup => exact nodup
  all_goals grind [Function.update_apply]

theorem handBack (places : Places own s client (fd :: flight) place)
    (pipe : List Nat) (decoded : List (Nat × Nat)) :
    Places own { s with
      pipe := pipe, workSet := s.workSet.erase fd, decoded := decoded, set := insert fd s.set }
      client flight (Function.update place fd (some .inSet)) ∧
    Places own { s with
      pipe := pipe, workSet := s.workSet.erase fd, decoded := decoded
      accepted := s.accepted.erase fd }
      client flight (Function.update place fd none) := by
  obtain ⟨accepted, foreign, set, workSet, queue, nodup, worker, inFlight, nodup'⟩ := places
  have here : place fd = some .inFlight := (inFlight fd).mp List.mem_cons_self
  rw [List.nodup_cons] at nodup'
  constructor
  · constructor
    case queueNodup => exact nodup
    case flightNodup => exact nodup'.2
    all_goals grind [Function.update_apply]
  · constructor
    case queueNodup => exact nodup
    case flightNodup => exact nodup'.2
    all_goals grind [Function.update_apply]

end Places

end

end FileServer
