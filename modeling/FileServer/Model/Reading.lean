import FileServer.Model.WorkerFunctions

/-!
# `fileNRead` among other workers

One `fileNRead` in the steps between which other workers may come in, and their operations on the
stack of file names.
-/

namespace FileServer

/-- How far a `fileNRead` has come. `names` is the copy of the stack, of length `arr_s`; the names in
`visited` have been looked up, so that `i` is their number. -/
inductive Reading where
  | asked
  | compacted
  | copied (names : List Path)
  | testing (names : List Path) (fileNum : Int) (visited : List Path)
  | looking (names : List Path) (fileNum : Int) (visited : List Path)
  | ended (names visited : List Path)
deriving DecidableEq, Repr

/-- What `fileNRead` does under `filestack_mutex`. -/
def stackCopy (rand : Nat → Nat) : Handler (List Path) := do
  lock .filestack
  let arrS ← call (.stackTop .null)
  let names ← arrayRandomPermutation rand arrS
  unlock .filestack
  return names

namespace Reading

/-- The copy of the stack, as long as it is in use. -/
def copy : Reading → Option (List Path)
  | .copied names | .testing names _ _ | .looking names _ _ => some names
  | _ => none

/-- The next step of the `fileNRead`. -/
def next {W : Type} (cfg : Config) (w : W) (fileNum : Int) (rand : Nat → Nat) (s : Server W) :
    Reading → Outcome Fault (Reading × Server W)
  | .asked => ((server W cfg).run w fileStackDefrag s).andThen fun (_, s') => .ok (.compacted, s')
  | .compacted => ((server W cfg).run w (stackCopy rand) s).andThen fun (names, s') =>
      .ok (.copied names, s')
  | .copied names => .ok (.testing names (if fileNum = 0 then s.store.fstack.top else fileNum) [], s)
  | .testing names fileNum visited =>
      if visited.length < fileNum ∧ visited.length < s.store.fstack.top then
        .ok (.looking names fileNum visited, s)
      else .ok (.ended names visited, s)
  | .looking names fileNum visited => match names[visited.length]? with
      | none => .fault .stackIndex
      | some name => ((server W cfg).run w (hashGetFile (.copy name) .src) s).andThen fun (_, s') =>
          .ok (.testing names fileNum (visited ++ [name]), s')
  | .ended names visited => .ok (.ended names visited, s)

end Reading

/-- The functions through which writes and evictions change the stack. -/
inductive StackCall where
  | fileStackAdd (filePath : CStr)
  | fileStackGetTop (filePath : CStr)
deriving DecidableEq, Repr

def StackCall.run {W : Type} (cfg : Config) (w : W) (s : Server W) : StackCall → Outcome Fault (Server W)
  | .fileStackAdd filePath => ((server W cfg).run w (FileServer.fileStackAdd filePath) s).andThen
      fun (_, s') => .ok s'
  | .fileStackGetTop filePath => ((server W cfg).run w (FileServer.fileStackGetTop filePath) s).andThen
      fun (_, s') => .ok s'

/-- The runs of the `fileNRead` of worker `w` from `start` on. In between other workers push names and pick
victims, where `admits` allows it, and do whatever leaves the stack alone. -/
inductive ReadRun {W : Type} (cfg : Config) (w : W) (fileNum : Int) (rand : Nat → Nat)
    (admits : Reading → Server W → StackCall → Prop) (start : Server W) : Reading → Server W → Prop where
  | start : ReadRun cfg w fileNum rand admits start .asked start
  | read {r r' s s'} (before : ReadRun cfg w fileNum rand admits start r s)
      (step : r.next cfg w fileNum rand s = .ok (r', s')) : ReadRun cfg w fileNum rand admits start r' s'
  | call {r s s' v c} (before : ReadRun cfg w fileNum rand admits start r s) (admitted : admits r s c)
      (step : StackCall.run cfg v s c = .ok s') : ReadRun cfg w fileNum rand admits start r s'
  | other {r s s'} (before : ReadRun cfg w fileNum rand admits start r s)
      (same : s'.store.fstack = s.store.fstack) : ReadRun cfg w fileNum rand admits start r s'

end FileServer
