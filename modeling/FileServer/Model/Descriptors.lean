import FileServer.Model.Store

/-!
# `readNB` and `writeNB`

The two loops of `API.c` over `read` and `write`, which may transfer fewer bytes than they are asked
for. A loop is a sequence of turns, one for each result of the system call.
-/

namespace FileServer

inductive Turn (σ : Type) where
  | again (s : σ)
  | over (s : σ)
deriving DecidableEq, Repr

/-- `n_left`, and how far `buff` has moved from the start of the destination. -/
structure ReadNB where
  nLeft : Nat
  buff : Nat
deriving DecidableEq, Repr

namespace ReadNB

def test (s : ReadNB) : Turn ReadNB := if 0 < s.nLeft then .again s else .over s

def start (n : Nat) : Turn ReadNB := test ⟨n, 0⟩

/-- The result of `read` is kept in the `size_t` `n_read`, so that the test `n_read < 0` never holds. -/
def turn (s : ReadNB) (result : Int) : Turn ReadNB :=
  let nRead := sizeT result
  if nRead = 0 then .over s else test ⟨sizeT (s.nLeft - nRead), sizeT (s.buff + nRead)⟩

/-- What `readNB` returns after it was called with `n`. -/
def returned (n : Nat) (s : ReadNB) : Nat := sizeT (n - s.nLeft)

end ReadNB

/-- `readNB` after `i` calls of `read`, where `reads` are the results of the calls. -/
def readNB (n : Nat) (reads : Nat → Int) : (i : Nat) → Turn ReadNB
  | 0 => ReadNB.start n
  | i + 1 => match readNB n reads i with
      | .again s => s.turn (reads i)
      | .over s => .over s

/-- `total_sent_bytes`, and how far `data` has moved from the start of the buffer. -/
structure WriteNB where
  totalSentBytes : Int
  data : Nat
deriving DecidableEq, Repr

namespace WriteNB

def test (size : Nat) (s : WriteNB) : Turn WriteNB :=
  if sizeT s.totalSentBytes < size then .again s else .over s

def start (size : Nat) : Turn WriteNB := test size ⟨0, 0⟩

/-- What `write` is asked to send. -/
def asked (size : Nat) (s : WriteNB) : Nat := sizeT (size - sizeT s.totalSentBytes)

def turn (size : Nat) (s : WriteNB) (result : Int) : Turn WriteNB :=
  let sentBytes := cInt result
  let s' : WriteNB := ⟨cInt (s.totalSentBytes + sentBytes), sizeT (s.data + sentBytes)⟩
  if sentBytes ≤ 0 then .over s' else test size s'

end WriteNB

/-! ## Both ends of a stream -/

/-- One side sends its buffers with `writeNB`, one after the other, and the other side fills its
destinations with `readNB`. A call that is going on comes with its buffer; a call that is over with what
it returned. -/
structure Transfer where
  toSend : List (List UInt8)
  sending : Option (List UInt8 × WriteNB)
  fifo : List UInt8
  toFill : List (List UInt8)
  filling : Option (List UInt8 × ReadNB)
  filled : List (List UInt8 × Nat)

namespace Transfer

def start (buffers destinations : List (List UInt8)) : Transfer where
  toSend := buffers
  sending := none
  fifo := []
  toFill := destinations
  filling := none
  filled := []

/-- After a turn of `writeNB`, or when it is called. -/
def sent (t : Transfer) (buffer : List UInt8) : Turn WriteNB → Transfer
  | .again s => { t with sending := some (buffer, s) }
  | .over _ => { t with sending := none }

/-- After a turn of `readNB`, or when it is called. -/
def read (t : Transfer) (destination : List UInt8) : Turn ReadNB → Transfer
  | .again s => { t with filling := some (destination, s) }
  | .over s => { t with
      filling := none
      filled := t.filled ++ [(destination, s.returned destination.length)] }

/-- `read` has put `bytes` where `buff` points. -/
def put (destination : List UInt8) (buff : Nat) (bytes : List UInt8) : List UInt8 :=
  destination.take buff ++ bytes ++ destination.drop (buff + bytes.length)

/-- The kernel takes as many bytes of a `write` and gives as many bytes for a `read` as it likes, at
least one. -/
inductive Step : Transfer → Transfer → Prop where
  | writeNB {t buffer rest} (idle : t.sending = none) (next : t.toSend = buffer :: rest) :
      Step t ({ t with toSend := rest }.sent buffer (WriteNB.start buffer.length))
  | write {t buffer s k} (going : t.sending = some (buffer, s)) (positive : 0 < k)
      (most : k ≤ s.asked buffer.length) :
      Step t ({ t with fifo := t.fifo ++ (buffer.drop s.data).take k }.sent buffer
        (s.turn buffer.length k))
  | readNB {t destination rest} (idle : t.filling = none) (next : t.toFill = destination :: rest) :
      Step t ({ t with toFill := rest }.read destination (ReadNB.start destination.length))
  | read {t destination s k} (going : t.filling = some (destination, s)) (positive : 0 < k)
      (most : k ≤ s.nLeft) (there : k ≤ t.fifo.length) :
      Step t ({ t with fifo := t.fifo.drop k }.read (put destination s.buff (t.fifo.take k)) (s.turn k))

end Transfer

end FileServer
