import FileServer.Program.Interleave
import Mathlib.Data.Finset.Card

/-!
# `ThreadPool.c`

The task queue with its cells in memory, the workers, and the tasks that `main` adds until it shuts
the pool down. What a client's task does to the store is in `WorkerFunctions.lean`.
-/

namespace FileServer

/-- The functions that are put into the queue. -/
inductive ThreadFunc where
  | clientReadReq
  | threadRequestExit
deriving DecidableEq

/-- A pointer to the struct that `makeWorkArgs` has allocated, or to `worker_pool`. -/
inductive TaskArgs where
  | work (args : Nat)
  | workerPool
deriving DecidableEq

structure PoolRequest where
  func : Option ThreadFunc
  args : Option TaskArgs
deriving DecidableEq

/-- `struct _queue`. -/
structure QueueCell where
  func : Option ThreadFunc
  args : Option TaskArgs
  next : Option Nat

def QueueCell.request (cell : QueueCell) : PoolRequest := ⟨cell.func, cell.args⟩

inductive PoolFault where
  | null
  | notAllocated
deriving DecidableEq

/-- `cells` keeps what was in a cell when it is freed. -/
structure ThreadPool where
  queue : Option Nat
  queueTail : Option Nat
  cells : Nat → QueueCell
  allocated : Finset Nat

namespace ThreadPool

/-- `new` is the address that `malloc` returns. -/
def queueAdd (new : Nat) (func : Option ThreadFunc) (args : Option TaskArgs) (pool : ThreadPool) :
    Outcome PoolFault ThreadPool :=
  if new ∈ pool.allocated then .blocked
  else
    let cells := Function.update pool.cells new ⟨func, args, none⟩
    let allocated := insert new pool.allocated
    match pool.queue with
    | none => .ok ⟨some new, some new, cells, allocated⟩
    | some head => match pool.queueTail with
        | none => .fault .null
        | some tail =>
            if tail ∈ allocated then
              let cells := Function.update cells tail { cells tail with next := some new }
              .ok ⟨some head, (cells tail).next, cells, allocated⟩
            else .fault .notAllocated

def queueTakeHead (pool : ThreadPool) : Outcome PoolFault (Int × PoolRequest × ThreadPool) :=
  match pool.queue with
  | none => .ok (1, ⟨none, none⟩, pool)
  | some head =>
      if head ∈ pool.allocated then
        let cell := pool.cells head
        .ok (0, ⟨cell.func, cell.args⟩, { pool with
          queue := cell.next
          queueTail := if cell.next = none then cell.next else pool.queueTail
          allocated := pool.allocated.erase head })
      else .fault .notAllocated

/-- `free` of a task's arguments, where `work` holds the structs that are allocated. -/
def freeArgs (args : TaskArgs) (work : Finset Nat) : Outcome PoolFault (Finset Nat) :=
  match args with
  | .work args => if args ∈ work then .ok (work.erase args) else .fault .notAllocated
  | .workerPool => .fault .notAllocated

def clearLoop : Nat → ThreadPool → Finset Nat →
    Outcome PoolFault (List PoolRequest × ThreadPool × Finset Nat)
  | 0, _, _ => .spinning
  | fuel + 1, pool, work =>
      pool.queueTakeHead.andThen fun (result, toDel, pool) =>
        if result ≠ 1 then
          let freed : Outcome PoolFault (Finset Nat) := match toDel.args with
            | none => .ok work
            | some args => freeArgs args work
          freed.andThen fun work => (clearLoop fuel pool work).andThen fun (cleared, pool, work) =>
            .ok (toDel :: cleared, pool, work)
        else .ok ([], pool, work)

/-- With the requests that were taken off. Each round frees a cell, so the rounds are at most one more
than the cells. -/
def threadPoolClear (pool : ThreadPool) (work : Finset Nat) :
    Outcome PoolFault (List PoolRequest × ThreadPool × Finset Nat) :=
  clearLoop (pool.allocated.card + 1) pool work

def destroyLoop : Nat → ThreadPool → Outcome PoolFault (List PoolRequest × ThreadPool)
  | 0, _ => .spinning
  | fuel + 1, pool => match pool.queue with
      | none => .ok ([], pool)
      | some cell =>
          if cell ∈ pool.allocated then
            (destroyLoop fuel { pool with
              queue := (pool.cells cell).next
              allocated := pool.allocated.erase cell }).andThen fun (left, emptied) =>
                .ok ((pool.cells cell).request :: left, emptied)
          else .fault .notAllocated

/-- With the requests that were left. -/
def threadPoolDestroy (pool : ThreadPool) : Outcome PoolFault (List PoolRequest × ThreadPool) :=
  destroyLoop (pool.allocated.card + 1) pool

end ThreadPool

/-! ## The threads -/

/-- The thread `none` is `main`, `some i` the worker that `makeWorkerThreads` has put at index `i`. -/
abbrev PoolThread (n : Nat) := Option (Fin n)

/-- What has happened to the tasks. -/
inductive PoolEvent (n : Nat) where
  | added (t : PoolThread n) (task : PoolRequest)
  | taken (w : Fin n) (task : PoolRequest)
  | called (w : Fin n) (task : PoolRequest)
  | cleared (tasks : List PoolRequest)
  | destroyed (tasks : List PoolRequest)
  | exited (t : PoolThread n)
deriving DecidableEq

/-- The pool, the arguments made by `makeWorkArgs` and not freed, and the events so far. -/
structure PoolState (n : Nat) where
  pool : ThreadPool
  work : Finset Nat
  log : List (PoolEvent n)

/-- `threadPoolAdd`, `poolTakeTask` and `threadPoolClear` hold the pool's mutex: one operation is the
section between lock and unlock, in `poolTakeTask` the one after the wait. `exit` is `pthread_exit`, or
the return of `main`. -/
inductive PoolOp (n : Nat) where
  | makeWorkArgs (args : Nat)
  | threadPoolAdd (new : Nat) (func : Option ThreadFunc) (args : Option TaskArgs)
  | poolTakeTask
  | call (func : ThreadFunc) (args : Option TaskArgs)
  | free (args : TaskArgs)
  | threadPoolClear
  | join (w : Fin n)
  | threadPoolDestroy
  | exit

abbrev PoolOp.Resp {n : Nat} : PoolOp n → Type
  | .poolTakeTask => PoolRequest
  | _ => Unit

abbrev PoolProgram (n : Nat) (α : Type) := Program (PoolOp n) PoolOp.Resp α

namespace PoolState
variable {n : Nat}

def initial (n : Nat) (cells : Nat → QueueCell) : PoolState n := ⟨⟨none, none, cells, ∅⟩, ∅, []⟩

def record (s : PoolState n) (e : PoolEvent n) : PoolState n := { s with log := s.log ++ [e] }

def perform (t : PoolThread n) : (o : PoolOp n) → PoolState n →
    Outcome PoolFault (o.Resp × PoolState n)
  | .makeWorkArgs args, s =>
      if args ∈ s.work then .blocked else .ok ((), { s with work := insert args s.work })
  | .threadPoolAdd new func args, s =>
      (s.pool.queueAdd new func args).andThen fun pool =>
        .ok ((), { s with pool := pool }.record (.added t ⟨func, args⟩))
  | .poolTakeTask, s =>
      s.pool.queueTakeHead.andThen fun (result, request, pool) =>
        match t with
        | some w =>
            if result = 1 then .ok (request, { s with pool := pool })
            else .ok (request, { s with pool := pool }.record (.taken w request))
        | none => .ok (request, { s with pool := pool })
  | .call func args, s => match t with
      | some w => .ok ((), s.record (.called w ⟨some func, args⟩))
      | none => .ok ((), s)
  | .free args, s =>
      (ThreadPool.freeArgs args s.work).andThen fun work => .ok ((), { s with work := work })
  | .threadPoolClear, s =>
      (s.pool.threadPoolClear s.work).andThen fun (cleared, pool, work) =>
        .ok ((), { s with pool := pool, work := work }.record (.cleared cleared))
  | .join w, s => if .exited (some w) ∈ s.log then .ok ((), s) else .blocked
  | .threadPoolDestroy, s =>
      s.pool.threadPoolDestroy.andThen fun (left, pool) =>
        .ok ((), { s with pool := pool }.record (.destroyed left))
  | .exit, s => .ok ((), s.record (.exited t))

/-- A thread that has ended does nothing more. -/
def exec (t : PoolThread n) (o : PoolOp n) (s : PoolState n) :
    Outcome PoolFault (o.Resp × PoolState n) :=
  if .exited t ∈ s.log then .blocked else perform t o s

end PoolState

namespace PoolProgram
variable {n : Nat}

abbrev act (o : PoolOp n) : PoolProgram n o.Resp := Program.perform o

def ThreadRequestExit (new : Nat) (args : Option TaskArgs) : PoolProgram n Unit := do
  act (.threadPoolAdd new (some .threadRequestExit) args)
  act .exit

/-- A round of the worker's loop. `new` is the address that `malloc` returns if the task adds one. -/
def poolWorker (new : Nat) : PoolProgram n Unit := do
  let request ← act .poolTakeTask
  match request.func with
  | none => pure ()
  | some func => do
      act (.call func request.args)
      match func with
      | .clientReadReq => pure ()
      | .threadRequestExit => ThreadRequestExit new request.args
  match request.args with
  | none => pure ()
  | some args => act (.free args)

def dispatch : List (Nat × Nat) → PoolProgram n Unit
  | [] => pure ()
  | (args, new) :: rest => do
      act (.makeWorkArgs args)
      act (.threadPoolAdd new (some .clientReadReq) (some (.work args)))
      dispatch rest

def workersDestroy : List (Fin n) → PoolProgram n Unit
  | [] => pure ()
  | w :: rest => do
      act (.join w)
      workersDestroy rest

/-- What `main` does to the pool: the requests of clients that it dispatches, with the addresses that
`malloc` returns, and the shutdown. -/
def main (requests : List (Nat × Nat)) (new : Nat) : PoolProgram n Unit := do
  dispatch requests
  act .threadPoolClear
  act (.threadPoolAdd new (some .threadRequestExit) (some .workerPool))
  workersDestroy (List.finRange n)
  act .threadPoolDestroy
  act .exit

end PoolProgram

def poolMachine (n : Nat) : Machine (PoolOp n) PoolOp.Resp (PoolThread n) (PoolState n) PoolFault where
  exec := PoolState.exec

inductive PoolStarts (n : Nat) : PoolThread n → PoolProgram n Unit → Prop where
  | main (requests : List (Nat × Nat)) (new : Nat) : PoolStarts n none (PoolProgram.main requests new)
  | worker (w : Fin n) (new : Nat) : PoolStarts n (some w) (PoolProgram.poolWorker new)

end FileServer
