import FileServer.Model.Api
import FileServer.Program.Duplex

/-!
# A client and its server

The two ends of a connection, over one queue of bytes in each direction.
-/

namespace FileServer

/-- What a client does next; `admits` says how its system may answer. -/
def Api.next (admits : (o : Local) → o.Resp → Prop) : Api Unit → Action UInt8 (Api Unit)
  | .ret _ => .done
  | .op (.send data) next => .send data (next ())
  | .op (.readNB n) next => .recv n next
  | .op (.ask o) next => .move fun p => ∃ x, admits o x ∧ p = next x
  | .op .halt _ => .move fun _ => False

/-- The server waits for a function code, has one, or runs the function. -/
inductive Serving (W : Type) where
  | waiting
  | called (func : List UInt8)
  | busy (p : Worker Unit) (s : Server W)

/-- What the server does next for its client. A function starts in a state that `starts` allows; other
clients may have been served in between. -/
def Serving.next {W : Type} (cfg : Config) (w : W) (fd : Nat) (starts : Server W → Prop) :
    Serving W → Action UInt8 (Serving W)
  | .waiting => .recv 4 .called
  | .called func => .move fun t => ∃ s fuel rand, starts s ∧
      t = .busy (handled (given (intOf func)) >>= Socket.reqFunArr cfg fuel fd rand) s
  | .busy (.ret _) _ => .move fun t => t = .waiting
  | .busy (.op (.readNB n) next) s => .recv n fun data => .busy (next data) s
  | .busy (.op (.server (.writeNB fd' msg)) next) s =>
      .send msg.sentBytes (.busy (next ()) (s.send fd' msg))
  | .busy (.op (.server o) next) s => .move fun t => ∃ x s', s.exec cfg w o = .ok (x, s') ∧
      t = .busy (next x) s'

abbrev Connection (W : Type) := Duplex UInt8 (Api Unit) (Serving W)

/-- All that was sent has been read, and the server waits for the next function code. -/
def Connection.AtRest {W : Type} (c : Connection W) : Prop :=
  c.up = [] ∧ c.down = [] ∧ c.right = .waiting

end FileServer
