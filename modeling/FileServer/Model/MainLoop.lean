import FileServer.Program.Interleave
import Mathlib.Data.Finset.Lattice.Fold
import Mathlib.Order.Lattice.Nat

/-!
# `server.c` and `ThreadPool.c`

The loop of `main`, the task queue, and `clientReadReq` with its answer on the pipe. What a handler
does to the store is in `WorkerFunctions.lean`; here it is one step of a worker.
-/

namespace FileServer

def SIGHUP : Nat := 1
def SIGINT : Nat := 2
def SIGQUIT : Nat := 3

/-- The descriptors that `main` reads itself: `pipefd[0]`, `listen_socket` and `signalpipe[0]`. -/
structure OwnFds where
  pipefd : Nat
  listenSocket : Nat
  signalpipe : Nat
  pipefd_ne : pipefd ≠ listenSocket
  signalpipe_ne : signalpipe ≠ pipefd
  listenSocket_ne : listenSocket ≠ signalpipe

def OwnFds.all (own : OwnFds) : Finset Nat := {own.pipefd, own.listenSocket, own.signalpipe}

/-- The variables of `main`, the task queue, the ints in the pipe, the client descriptors that are
open, the clients that have not been seen to hang up, and the pairs written and read so far. -/
structure Loop where
  set : Finset Nat
  workSet : Finset Nat
  max : Nat
  signal : Nat
  running : Bool
  queue : List Nat
  pipe : List Nat
  accepted : Finset Nat
  connected : Finset Nat
  sent : List (Nat × Nat)
  decoded : List (Nat × Nat)

/-- The sets of `select` belong to `main` alone, so its updates of them are one step with the call
they come with. The outcome of a system call is an argument; an outcome the call cannot have is not
enabled. -/
inductive LoopOp where
  | select (ready : List Nat)
  | readSignal (signal : Nat)
  | signal
  | accept (fd : Nat)
  | readOpen
  | readFd (fdOpen : Nat)
  | dispatch (fd : Nat)
  | fdSetUpdate
  | testBreak
  | queueTakeHead
  | readCode (fd : Nat) (hangUp : Bool)
  | serve (fd : Nat)
  | writeOpen (fdOpen fd : Nat)
  | writeFd (fdOpen fd : Nat)

abbrev LoopOp.Resp : LoopOp → Type
  | .signal | .readOpen => Nat
  | .queueTakeHead => Option Nat
  | _ => Unit

namespace Loop

def initial (own : OwnFds) : Loop where
  set := own.all
  workSet := ∅
  max := own.all.sup id
  signal := 0
  running := true
  queue := []
  pipe := []
  accepted := ∅
  connected := ∅
  sent := []
  decoded := []

/-- `select` reports descriptors of the set, in the order in which the scan meets them. `signal_h` writes
one signal of its mask and exits, so that there is nothing to read once `main` has read it. -/
def Reports (own : OwnFds) (s : Loop) (ready : List Nat) : Prop :=
  ready.Pairwise (· < ·) ∧ (∀ i ∈ ready, i ∈ s.set ∧ i ≤ s.max) ∧ (own.pipefd ∈ ready → s.pipe ≠ []) ∧
    (own.signalpipe ∈ ready → s.signal = 0)

instance (own : OwnFds) (s : Loop) (ready : List Nat) : Decidable (s.Reports own ready) :=
  inferInstanceAs (Decidable (_ ∧ _))

def exec (own : OwnFds) : (o : LoopOp) → Loop → Outcome Empty (o.Resp × Loop)
  | .select ready, s =>
      if s.running = true ∧ s.signal ≠ SIGINT ∧ s.signal ≠ SIGQUIT ∧ s.Reports own ready then
        .ok ((), s)
      else .blocked
  | .readSignal signal, s =>
      if signal = SIGHUP ∨ signal = SIGINT ∨ signal = SIGQUIT then .ok ((), { s with signal := signal })
      else .blocked
  | .signal, s => .ok (s.signal, s)
  | .accept fd, s =>
      if fd ∈ s.accepted ∨ fd ∈ own.all then .blocked
      else .ok ((), { s with
        set := insert fd s.set, max := Nat.max s.max fd
        accepted := insert fd s.accepted, connected := insert fd s.connected })
  | .readOpen, s => match s.pipe with
      | [] => .blocked
      | fdOpen :: rest => .ok (fdOpen, { s with pipe := rest })
  | .readFd fdOpen, s => match s.pipe with
      | [] => .blocked
      | fd :: rest =>
          let read := { s with
            pipe := rest, workSet := s.workSet.erase fd, decoded := s.decoded ++ [(fdOpen, fd)] }
          if fdOpen ≠ 0 then .ok ((), { read with set := insert fd read.set })
          else .ok ((), { read with accepted := read.accepted.erase fd })
  | .dispatch fd, s => .ok ((), { s with
      queue := s.queue ++ [fd], set := s.set.erase fd, workSet := insert fd s.workSet })
  | .fdSetUpdate, s => .ok ((), { s with
      max := ((s.set ∪ s.workSet).filter (· ≤ s.max)).sup id })
  | .testBreak, s => .ok ((), { s with
      running := !(s.signal = SIGHUP && s.max = own.all.sup id) })
  | .queueTakeHead, s => match s.queue with
      | [] => .ok (none, s)
      | fd :: rest => .ok (some fd, { s with queue := rest })
  | .readCode fd hangUp, s => .ok ((), { s with
      connected := if hangUp then s.connected.erase fd else s.connected })
  | .serve _, s => .ok ((), s)
  | .writeOpen fdOpen _, s => .ok ((), { s with pipe := s.pipe ++ [fdOpen] })
  | .writeFd fdOpen fd, s => .ok ((), { s with
      pipe := s.pipe ++ [fd], sent := s.sent ++ [(fdOpen, fd)] })

end Loop

abbrev LoopProgram (α : Type) := Program LoopOp LoopOp.Resp α

abbrev act (o : LoopOp) : LoopProgram o.Resp := Program.perform o

def checkPipeForFd : LoopProgram Unit := do
  let fdOpen ← act .readOpen
  act (.readFd fdOpen)

/-- The scan over the descriptors that `select` has reported; `fresh` is what `accept` returns in this
iteration and `heard` what is read from the signal pipe. -/
def scan (own : OwnFds) (fresh heard : Nat) : List Nat → LoopProgram Unit
  | [] => return ()
  | i :: ready => do
      if i = own.signalpipe then act (.readSignal heard)
      else
        let signal ← act .signal
        if i = own.listenSocket ∧ signal ≠ SIGHUP then act (.accept fresh)
        else if i = own.pipefd then checkPipeForFd
        else if i ≠ own.listenSocket then act (.dispatch i)
      scan own fresh heard ready

def mainIteration (own : OwnFds) (fresh heard : Nat) (ready : List Nat) : LoopProgram Unit := do
  act (.select ready)
  scan own fresh heard ready
  act .fdSetUpdate
  act .testBreak

def clientReadReq (fd : Nat) (hangUp : Bool) : LoopProgram Unit := do
  act (.readCode fd hangUp)
  if hangUp then
    act (.writeOpen 0 fd)
    act (.writeFd 0 fd)
  else
    act (.serve fd)
    act (.writeOpen 1 fd)
    act (.writeFd 1 fd)

def poolWorker (hangsUp : Nat → Bool) : LoopProgram Unit := do
  match ← act .queueTakeHead with
  | none => return ()
  | some fd => clientReadReq fd (hangsUp fd)

/-- The main thread, `none`, and the workers of the pool. -/
def loopMachine (W : Type) (own : OwnFds) : Machine LoopOp LoopOp.Resp (Option W) Loop Empty where
  exec _ o s := Loop.exec own o s

inductive LoopStarts {W : Type} (own : OwnFds) : Option W → LoopProgram Unit → Prop where
  | main (fresh heard : Nat) (ready : List Nat) :
      LoopStarts own none (mainIteration own fresh heard ready)
  | worker (w : W) (hangsUp : Nat → Bool) : LoopStarts own (some w) (poolWorker hangsUp)

end FileServer
