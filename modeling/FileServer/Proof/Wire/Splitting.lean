import FileServer.Proof.Wire.Reading
import Mathlib.Logic.Relation

/-!
# Buffers sent in pieces

However the kernel splits the two sides of a transfer, the bytes received, the bytes in the queue and
the bytes not yet sent are the buffers, end to end.
-/

namespace FileServer

section
variable {α : Type}

theorem prefix_of_flatten {xs bs : List (List α)} (sizes : xs.map List.length <+: bs.map List.length)
    (symbols : xs.flatten <+: bs.flatten) : xs <+: bs := by
  induction xs generalizing bs with
  | nil => exact List.nil_prefix
  | cons x xs ih =>
      cases bs with
      | nil => simp at sizes
      | cons b bs =>
          simp only [List.map_cons, List.cons_prefix_cons] at sizes
          rw [List.flatten_cons, List.flatten_cons] at symbols
          have first : x = b := by
            obtain ⟨rest, same⟩ := symbols
            rw [List.append_assoc] at same
            exact List.append_inj_left same sizes.1
          subst first
          have rest := ih sizes.2 ((List.prefix_append_right_inj x).mp symbols)
          exact List.cons_prefix_cons.mpr ⟨rfl, rest⟩

end

namespace Transfer

def unsent (t : Transfer) : List UInt8 :=
  (t.sending.elim [] fun (buffer, s) => buffer.drop s.data) ++ t.toSend.flatten

def received (t : Transfer) : List UInt8 :=
  (t.filled.map Prod.fst).flatten ++ t.filling.elim [] fun (destination, s) => destination.take s.buff

def calls (t : Transfer) : List Nat :=
  (t.filled.map Prod.fst).map List.length ++
    ((t.filling.elim [] fun (destination, _) => [destination.length]) ++ t.toFill.map List.length)

structure Sound (buffers : List (List UInt8)) (t : Transfer) : Prop where
  bytes : t.received ++ (t.fifo ++ t.unsent) = buffers.flatten
  calls : t.calls = buffers.map List.length
  sending : ∀ buffer s, t.sending = some (buffer, s) → s.totalSentBytes = s.data ∧
    s.data < buffer.length ∧ buffer.length < 2 ^ 31
  filling : ∀ destination s, t.filling = some (destination, s) →
    s.buff + s.nLeft = destination.length ∧ 0 < s.nLeft
  returned : ∀ x ∈ t.filled, x.2 = x.1.length
  small : ∀ buffer ∈ t.toSend, buffer.length < 2 ^ 31
  small' : ∀ n ∈ t.calls, n < 2 ^ 31

/-- What the calls to come and the calls going on have still to do. -/
def work (t : Transfer) : Nat :=
  t.unsent.length + t.toSend.length + ((t.filling.elim 0 fun (_, s) => s.nLeft) +
    (t.toFill.map List.length).sum + t.toFill.length)

variable {buffers : List (List UInt8)} {t t' : Transfer} {buffer destination : List UInt8}

theorem writeNB_test {j : Nat} (le : j ≤ buffer.length) (small : buffer.length < 2 ^ 31) :
    WriteNB.test buffer.length ⟨j, j⟩ = .again ⟨j, j⟩ ∧ j < buffer.length ∨
      WriteNB.test buffer.length ⟨j, j⟩ = .over ⟨j, j⟩ ∧ j = buffer.length := by
  unfold WriteNB.test
  simp only
  rw [sizeT_of_small (by omega)]
  by_cases less : j < buffer.length
  · rw [if_pos less]
    exact .inl ⟨rfl, less⟩
  · rw [if_neg less]
    exact .inr ⟨rfl, Nat.le_antisymm le (Nat.not_lt.mp less)⟩

theorem asked_eq {j : Nat} (le : j ≤ buffer.length) (small : buffer.length < 2 ^ 31) :
    WriteNB.asked buffer.length ⟨j, j⟩ = buffer.length - j := by
  have left : (buffer.length : Int) - (j : Int) = (buffer.length - j : Nat) := by omega
  show sizeT (buffer.length - (sizeT j : Nat)) = _
  rw [sizeT_of_small (by omega), left, sizeT_of_small (by omega)]

theorem writeNB_turn {j k : Nat} (less : j < buffer.length) (small : buffer.length < 2 ^ 31)
    (positive : 0 < k) (most : k ≤ WriteNB.asked buffer.length ⟨j, j⟩) :
    WriteNB.turn buffer.length ⟨j, j⟩ k = WriteNB.test buffer.length ⟨(j + k : Nat), j + k⟩ ∧
      j + k ≤ buffer.length := by
  rw [asked_eq (Nat.le_of_lt less) small] at most
  have whole : j + k ≤ buffer.length := by omega
  have result : cInt k = k := cInt_of_small (by omega) (by omega)
  have total : cInt (j + k : Nat) = (j + k : Nat) := cInt_of_small (by omega) (by omega)
  refine ⟨?_, whole⟩
  unfold WriteNB.turn
  simp only
  rw [result, if_neg (by omega), ← Int.natCast_add, total, sizeT_of_small (by omega)]

theorem readNB_test (j : Nat) (destination : List UInt8) (le : j ≤ destination.length) :
    ReadNB.test ⟨destination.length - j, j⟩ = .again ⟨destination.length - j, j⟩ ∧
        j < destination.length ∨
      ReadNB.test ⟨destination.length - j, j⟩ = .over ⟨0, j⟩ ∧ j = destination.length := by
  unfold ReadNB.test
  by_cases less : j < destination.length
  · exact .inl ⟨if_pos (Nat.sub_pos_of_lt less), less⟩
  · have all : j = destination.length := Nat.le_antisymm le (Nat.not_lt.mp less)
    rw [all, Nat.sub_self]
    exact .inr ⟨rfl, rfl⟩

theorem readNB_turn {s : ReadNB} {n k : Nat} (sum : s.buff + s.nLeft = n) (small : n < 2 ^ 31)
    (positive : 0 < k) (most : k ≤ s.nLeft) :
    s.turn k = ReadNB.test ⟨n - (s.buff + k), s.buff + k⟩ ∧ s.buff + k ≤ n := by
  have left : (s.nLeft : Int) - (k : Int) = (n - (s.buff + k) : Nat) := by omega
  have moved : (s.buff : Int) + (k : Int) = (s.buff + k : Nat) := by omega
  refine ⟨?_, by omega⟩
  unfold ReadNB.turn
  simp only
  rw [sizeT_of_small (by omega), if_neg (by omega), left, moved, sizeT_of_small (by omega),
    sizeT_of_small (by omega)]

theorem length_put {buff : Nat} {bytes : List UInt8}
    (inside : buff + bytes.length ≤ destination.length) :
    (put destination buff bytes).length = destination.length := by
  simp [put]
  omega

theorem take_put {buff : Nat} {bytes : List UInt8}
    (inside : buff + bytes.length ≤ destination.length) :
    (put destination buff bytes).take (buff + bytes.length) = destination.take buff ++ bytes := by
  have front : (destination.take buff ++ bytes).length = buff + bytes.length := by
    simp
    omega
  unfold put
  rw [← front]
  exact List.take_left' rfl

/-! ## One step -/

theorem unsent_sent (t : Transfer) {j : Nat} (le : j ≤ buffer.length) (small : buffer.length < 2 ^ 31) :
    (t.sent buffer (WriteNB.test buffer.length ⟨j, j⟩)).unsent = buffer.drop j ++ t.toSend.flatten := by
  rcases writeNB_test le small with ⟨again, -⟩ | ⟨ended, all⟩
  · rw [again]
    rfl
  · rw [ended, all, List.drop_length]
    rfl

theorem received_read (t : Transfer) {j : Nat} (le : j ≤ destination.length) :
    (t.read destination (ReadNB.test ⟨destination.length - j, j⟩)).received =
      (t.filled.map Prod.fst).flatten ++ destination.take j := by
  rcases readNB_test j destination le with ⟨again, -⟩ | ⟨ended, all⟩
  · rw [again]
    rfl
  · rw [ended, all, List.take_length]
    simp [received, read]

theorem calls_read (t : Transfer) {j : Nat} (le : j ≤ destination.length) :
    (t.read destination (ReadNB.test ⟨destination.length - j, j⟩)).calls =
      (t.filled.map Prod.fst).map List.length ++ (destination.length :: t.toFill.map List.length) := by
  rcases readNB_test j destination le with ⟨again, -⟩ | ⟨ended, -⟩
  · rw [again]
    rfl
  · rw [ended]
    simp [calls, read]

theorem work_sent (t : Transfer) {j : Nat} (le : j ≤ buffer.length) (small : buffer.length < 2 ^ 31) :
    (t.sent buffer (WriteNB.test buffer.length ⟨j, j⟩)).work =
      (buffer.drop j ++ t.toSend.flatten).length + t.toSend.length +
        ((t.filling.elim 0 fun (_, s) => s.nLeft) + (t.toFill.map List.length).sum +
          t.toFill.length) := by
  rw [← unsent_sent t le small]
  rcases writeNB_test le small with ⟨again, -⟩ | ⟨ended, -⟩
  · rw [again]
    rfl
  · rw [ended]
    rfl

theorem work_read (t : Transfer) {j : Nat} (le : j ≤ destination.length) :
    (t.read destination (ReadNB.test ⟨destination.length - j, j⟩)).work =
      t.unsent.length + t.toSend.length + ((destination.length - j) +
        (t.toFill.map List.length).sum + t.toFill.length) := by
  rcases readNB_test j destination le with ⟨again, -⟩ | ⟨ended, all⟩
  · rw [again]
    rfl
  · rw [ended, all, Nat.sub_self]
    rfl

theorem sent_fields (t : Transfer) (buffer : List UInt8) (turn : Turn WriteNB) :
    (t.sent buffer turn).received = t.received ∧ (t.sent buffer turn).calls = t.calls ∧
      (t.sent buffer turn).fifo = t.fifo ∧ (t.sent buffer turn).toSend = t.toSend ∧
      (t.sent buffer turn).filling = t.filling ∧ (t.sent buffer turn).filled = t.filled := by
  cases turn <;> exact ⟨rfl, rfl, rfl, rfl, rfl, rfl⟩

theorem read_fields (t : Transfer) (destination : List UInt8) (turn : Turn ReadNB) :
    (t.read destination turn).unsent = t.unsent ∧ (t.read destination turn).fifo = t.fifo ∧
      (t.read destination turn).toSend = t.toSend ∧ (t.read destination turn).sending = t.sending := by
  cases turn <;> exact ⟨rfl, rfl, rfl, rfl⟩

theorem Sound.start {destinations : List (List UInt8)}
    (sizes : destinations.map List.length = buffers.map List.length)
    (small : ∀ buffer ∈ buffers, buffer.length < 2 ^ 31) :
    Sound buffers (start buffers destinations) where
  bytes := rfl
  calls := sizes
  sending := nofun
  filling := nofun
  returned := nofun
  small := small
  small' := by
    intro n mem
    have mem' : n ∈ destinations.map List.length := mem
    rw [sizes] at mem'
    obtain ⟨buffer, isIn, rfl⟩ := List.mem_map.mp mem'
    exact small buffer isIn

theorem Sound.sent {j : Nat} (le : j ≤ buffer.length) (short : buffer.length < 2 ^ 31)
    (bytes : t.received ++ (t.fifo ++ (buffer.drop j ++ t.toSend.flatten)) = buffers.flatten)
    (calls : t.calls = buffers.map List.length)
    (filling : ∀ destination s, t.filling = some (destination, s) →
      s.buff + s.nLeft = destination.length ∧ 0 < s.nLeft)
    (returned : ∀ x ∈ t.filled, x.2 = x.1.length) (small : ∀ b ∈ t.toSend, b.length < 2 ^ 31)
    (small' : ∀ n ∈ t.calls, n < 2 ^ 31) :
    Sound buffers (t.sent buffer (WriteNB.test buffer.length ⟨j, j⟩)) := by
  obtain ⟨sameReceived, sameCalls, sameFifo, sameSend, sameFilling, sameFilled⟩ :=
    sent_fields t buffer (WriteNB.test buffer.length ⟨j, j⟩)
  refine ⟨?_, sameCalls.trans calls, fun b s going => ?_, sameFilling ▸ filling,
    sameFilled ▸ returned, sameSend ▸ small, sameCalls ▸ small'⟩
  · rw [sameReceived, sameFifo, unsent_sent t le short]
    exact bytes
  · rcases writeNB_test le short with ⟨again, less⟩ | ⟨ended, -⟩
    · rw [again] at going
      cases going
      exact ⟨rfl, less, short⟩
    · rw [ended] at going
      cases going

theorem Sound.read {j : Nat} (le : j ≤ destination.length)
    (bytes : (t.filled.map Prod.fst).flatten ++ destination.take j ++ (t.fifo ++ t.unsent) =
      buffers.flatten)
    (calls : (t.filled.map Prod.fst).map List.length ++
      (destination.length :: t.toFill.map List.length) = buffers.map List.length)
    (sending : ∀ buffer s, t.sending = some (buffer, s) → s.totalSentBytes = s.data ∧
      s.data < buffer.length ∧ buffer.length < 2 ^ 31)
    (returned : ∀ x ∈ t.filled, x.2 = x.1.length) (small : ∀ b ∈ t.toSend, b.length < 2 ^ 31)
    (small' : ∀ n ∈ buffers.map List.length, n < 2 ^ 31) :
    Sound buffers (t.read destination (ReadNB.test ⟨destination.length - j, j⟩)) := by
  obtain ⟨sameUnsent, sameFifo, sameSend, sameSending⟩ :=
    read_fields t destination (ReadNB.test ⟨destination.length - j, j⟩)
  have called := calls_read t le
  refine ⟨?_, called.trans calls, sameSending ▸ sending, fun d s going => ?_, fun x mem => ?_,
    sameSend ▸ small, by rw [called, calls]; exact small'⟩
  · rw [received_read t le, sameFifo, sameUnsent]
    exact bytes
  · rcases readNB_test j destination le with ⟨again, less⟩ | ⟨ended, -⟩
    · rw [again] at going
      cases going
      exact ⟨Nat.add_sub_cancel' le, Nat.sub_pos_of_lt less⟩
    · rw [ended] at going
      cases going
  · rcases readNB_test j destination le with ⟨again, -⟩ | ⟨ended, -⟩
    · rw [again] at mem
      exact returned x mem
    · rw [ended] at mem
      rcases List.mem_append.mp mem with old | new
      · exact returned x old
      · cases List.mem_singleton.mp new
        have short : destination.length < 2 ^ 31 := by
          apply small'
          rw [← calls]
          simp
        show sizeT (destination.length - ((0 : Nat) : Int)) = _
        rw [Int.natCast_zero, Int.sub_zero, sizeT_of_small (by omega)]

theorem Sound.step (sound : Sound buffers t) (step : Step t t') :
    Sound buffers t' ∧ t'.work < t.work := by
  cases step with
  | @writeNB buffer rest idle next =>
      have short := sound.small buffer (by rw [next]; exact List.mem_cons_self)
      have unsent : t.unsent = buffer ++ rest.flatten := by
        simp [Transfer.unsent, idle, next]
      refine ⟨Sound.sent (j := 0) (t := { t with toSend := rest }) (Nat.zero_le _) short ?_ sound.calls
        sound.filling sound.returned (fun b mem => ?_) sound.small', ?_⟩
      · rw [List.drop_zero, ← sound.bytes, unsent]
        rfl
      · exact sound.small b (by rw [next]; exact List.mem_cons_of_mem buffer mem)
      · have less := work_sent { t with toSend := rest } (j := 0) (Nat.zero_le _) short
        refine Nat.lt_of_le_of_lt (Nat.le_of_eq less) ?_
        unfold work
        rw [unsent, next, List.drop_zero]
        simp
  | @write buffer s k going positive most =>
      obtain ⟨same, less, short⟩ := sound.sending buffer s going
      obtain ⟨total, j⟩ := s
      dsimp only at same less
      subst same
      obtain ⟨turn, whole⟩ := writeNB_turn less short positive most
      rw [turn]
      have unsent : t.unsent = buffer.drop j ++ t.toSend.flatten := by
        simp [Transfer.unsent, going]
      have split : buffer.drop j = (buffer.drop j).take k ++ buffer.drop (j + k) := by
        rw [← List.drop_drop, List.take_append_drop]
      refine ⟨Sound.sent (t := { t with fifo := t.fifo ++ (buffer.drop j).take k }) whole short ?_
        sound.calls sound.filling sound.returned sound.small sound.small', ?_⟩
      · rw [← sound.bytes, unsent]
        conv_rhs => rw [split]
        simp only [List.append_assoc]
        rfl
      · have less' := work_sent { t with fifo := t.fifo ++ (buffer.drop j).take k } whole short
        refine Nat.lt_of_le_of_lt (Nat.le_of_eq less') ?_
        unfold work
        rw [unsent]
        simp only [List.length_append, List.length_drop]
        omega
  | @readNB destination rest idle next =>
      have calls : t.calls = (t.filled.map Prod.fst).map List.length ++
          (destination.length :: rest.map List.length) := by
        simp [Transfer.calls, idle, next]
      have received : t.received = (t.filled.map Prod.fst).flatten := by
        simp [Transfer.received, idle]
      refine ⟨Sound.read (j := 0) (t := { t with toFill := rest }) (Nat.zero_le _) ?_
        (calls.symm.trans sound.calls) sound.sending sound.returned sound.small
        (sound.calls ▸ sound.small'), ?_⟩
      · rw [← sound.bytes, received, List.take_zero, List.append_nil]
        rfl
      · have less := work_read { t with toFill := rest }
          (Nat.zero_le destination.length)
        refine Nat.lt_of_le_of_lt (Nat.le_of_eq less) ?_
        have same : Transfer.unsent { t with toFill := rest } = t.unsent := rfl
        unfold work
        rw [same, next, idle]
        simp only [List.map_cons, List.sum_cons, List.length_cons, Option.elim_none]
        omega
  | @read destination s k going positive most there =>
      obtain ⟨sum, some⟩ := sound.filling destination s going
      have calls : t.calls = (t.filled.map Prod.fst).map List.length ++
          (destination.length :: t.toFill.map List.length) := by
        simp [Transfer.calls, going]
      have short : destination.length < 2 ^ 31 := by
        apply sound.small'
        rw [calls]
        simp
      obtain ⟨turn, whole⟩ := readNB_turn sum short positive most
      have count : (t.fifo.take k).length = k := List.length_take_of_le there
      have inside : s.buff + (t.fifo.take k).length ≤ destination.length := by rw [count]; exact whole
      have length := length_put inside
      have front := take_put inside
      rw [count] at front
      have received : t.received = (t.filled.map Prod.fst).flatten ++ destination.take s.buff := by
        simp [Transfer.received, going]
      have whole' : s.buff + k ≤ (put destination s.buff (t.fifo.take k)).length := by
        rw [length]
        exact whole
      rw [turn, ← length]
      refine ⟨Sound.read (t := { t with fifo := t.fifo.drop k }) whole' ?_
        (by rw [length]; exact calls.symm.trans sound.calls) sound.sending sound.returned sound.small
        (sound.calls ▸ sound.small'), ?_⟩
      · rw [front, ← sound.bytes, received]
        conv_rhs => rw [← List.take_append_drop k t.fifo]
        simp only [List.append_assoc]
        rfl
      · have less := work_read { t with fifo := t.fifo.drop k } whole'
        refine Nat.lt_of_le_of_lt (Nat.le_of_eq less) ?_
        have same : Transfer.unsent { t with fifo := t.fifo.drop k } = t.unsent := rfl
        unfold work
        rw [same, length, going]
        simp only [Option.elim_some]
        omega

/-! ## Runs -/

theorem Sound.reaches (sound : Sound buffers t) (reaches : Relation.ReflTransGen Step t t') :
    Sound buffers t' := by
  induction reaches with
  | refl => exact sound
  | tail _ step ih => exact (ih.step step).1

theorem Sound.acc (sound : Sound buffers t) : Acc (fun t' t => Step t t') t := by
  induction measured : t.work using Nat.strong_induction_on generalizing t with
  | _ n ih =>
      refine .intro t fun t' step => ?_
      obtain ⟨sound', less⟩ := sound.step step
      exact ih t'.work (measured ▸ less) sound' rfl

theorem Sound.filled_prefix (sound : Sound buffers t) :
    t.filled <+: buffers.map fun buffer => (buffer, buffer.length) := by
  have bytes : (t.filled.map Prod.fst).flatten <+: buffers.flatten := by
    rw [← sound.bytes, received, List.append_assoc]
    exact List.prefix_append ..
  have sizes : (t.filled.map Prod.fst).map List.length <+: buffers.map List.length := by
    rw [← sound.calls]
    exact List.prefix_append ..
  have same : t.filled = (t.filled.map Prod.fst).map fun buffer => (buffer, buffer.length) := by
    rw [List.map_map]
    conv_lhs => rw [← List.map_id t.filled]
    refine List.map_congr_left fun x mem => ?_
    exact Prod.ext rfl (sound.returned x mem)
  rw [same]
  exact (prefix_of_flatten sizes bytes).map _

theorem Sound.rest (sound : Sound buffers t) (none : ∀ t', ¬Step t t') :
    t.toFill = [] ∧ t.filling = .none ∧ t.fifo = [] ∧ t.unsent = [] := by
  have idle : t.sending = .none := by
    cases going : t.sending with
    | none => rfl
    | some call =>
        obtain ⟨buffer, total, j⟩ := call
        obtain ⟨same, less, short⟩ := sound.sending buffer _ going
        dsimp only at same less
        subst same
        have room : 1 ≤ WriteNB.asked buffer.length ⟨j, j⟩ := by
          rw [asked_eq (Nat.le_of_lt less) short]
          omega
        exact absurd (.write going Nat.one_pos room) (none _)
  have sent : t.toSend = [] := by
    cases next : t.toSend with
    | nil => rfl
    | cons buffer rest => exact absurd (.writeNB idle next) (none _)
  have unsent : t.unsent = [] := by simp [Transfer.unsent, idle, sent]
  have waits : t.filling = .none := by
    cases going : t.filling with
    | none => rfl
    | some call =>
        obtain ⟨destination, s⟩ := call
        obtain ⟨sum, some⟩ := sound.filling destination s going
        have empty : t.fifo.length = 0 := by
          by_contra there
          exact none _ (.read going Nat.one_pos some (Nat.one_le_iff_ne_zero.mpr there))
        have total := congrArg List.length sound.bytes
        have sizes := congrArg List.sum sound.calls
        simp only [received, going, List.length_append, List.length_flatten, empty, unsent,
          Option.elim_some, List.length_take, List.length_nil] at total
        simp only [Transfer.calls, going, List.sum_append, Option.elim_some, List.sum_cons,
          List.sum_nil] at sizes
        omega
  have called : t.toFill = [] := by
    cases next : t.toFill with
    | nil => rfl
    | cons destination rest => exact absurd (.readNB waits next) (none _)
  refine ⟨called, waits, ?_, unsent⟩
  have total := congrArg List.length sound.bytes
  have sizes := congrArg List.sum sound.calls
  simp only [received, waits, List.length_append, List.length_flatten, unsent, Option.elim_none,
    List.length_nil] at total
  simp only [Transfer.calls, waits, called, List.sum_append, Option.elim_none, List.map_nil,
    List.sum_nil] at sizes
  exact List.eq_nil_of_length_eq_zero (by omega)

/-- In every run of a transfer the destinations filled so far hold the buffers, in order, every run
ends, and when it ends they hold all of them. -/
theorem chunked_transfer {destinations : List (List UInt8)}
    (sizes : destinations.map List.length = buffers.map List.length)
    (small : ∀ buffer ∈ buffers, buffer.length < 2 ^ 31)
    (reaches : Relation.ReflTransGen Step (Transfer.start buffers destinations) t) :
    (t.filled <+: buffers.map fun buffer => (buffer, buffer.length)) ∧
      Acc (fun t' t => Step t t') t ∧
      ((∀ t', ¬Step t t') → t.filled = (buffers.map fun buffer => (buffer, buffer.length)) ∧
        t.fifo = []) := by
  have sound := (Sound.start sizes small).reaches reaches
  refine ⟨sound.filled_prefix, sound.acc, fun none => ?_⟩
  obtain ⟨called, waits, empty, -⟩ := sound.rest none
  refine ⟨sound.filled_prefix.eq_of_length ?_, empty⟩
  have count := congrArg List.length sound.calls
  simpa [Transfer.calls, waits, called] using count

theorem chunked_transfer_example :
    [([1, 2], 2)] <+: [[1, 2], [3]].map fun buffer : List UInt8 => (buffer, buffer.length) := by
  have call : Step (Transfer.start [[1, 2], [3]] [[0, 0], [0]])
      ⟨[[3]], some ([1, 2], ⟨0, 0⟩), [], [[0, 0], [0]], none, []⟩ :=
    @Step.writeNB (Transfer.start [[1, 2], [3]] [[0, 0], [0]]) [1, 2] [[3]] rfl rfl
  have first : Step ⟨[[3]], some ([1, 2], ⟨0, 0⟩), [], [[0, 0], [0]], none, []⟩
      ⟨[[3]], some ([1, 2], ⟨1, 1⟩), [1], [[0, 0], [0]], none, []⟩ :=
    @Step.write ⟨[[3]], some ([1, 2], ⟨0, 0⟩), [], [[0, 0], [0]], none, []⟩ [1, 2] ⟨0, 0⟩ 1 rfl
      (by decide) (by decide)
  have second : Step ⟨[[3]], some ([1, 2], ⟨1, 1⟩), [1], [[0, 0], [0]], none, []⟩
      ⟨[[3]], none, [1, 2], [[0, 0], [0]], none, []⟩ :=
    @Step.write ⟨[[3]], some ([1, 2], ⟨1, 1⟩), [1], [[0, 0], [0]], none, []⟩ [1, 2] ⟨1, 1⟩ 1 rfl
      (by decide) (by decide)
  have call' : Step ⟨[[3]], none, [1, 2], [[0, 0], [0]], none, []⟩
      ⟨[[3]], none, [1, 2], [[0]], some ([0, 0], ⟨2, 0⟩), []⟩ :=
    @Step.readNB ⟨[[3]], none, [1, 2], [[0, 0], [0]], none, []⟩ [0, 0] [[0]] rfl rfl
  have whole : Step ⟨[[3]], none, [1, 2], [[0]], some ([0, 0], ⟨2, 0⟩), []⟩
      ⟨[[3]], none, [], [[0]], none, [([1, 2], 2)]⟩ :=
    @Step.read ⟨[[3]], none, [1, 2], [[0]], some ([0, 0], ⟨2, 0⟩), []⟩ [0, 0] ⟨2, 0⟩ 2 rfl
      (by decide) (by decide) (by decide)
  exact (chunked_transfer (by decide) (by decide)
    (((((Relation.ReflTransGen.single call).tail first).tail second).tail call').tail whole)).1

end Transfer

end FileServer
