import FileServer.Model.Dispatch
import FileServer.Proof.Arithmetic
import FileServer.Proof.Sequential.Requests
import FileServer.Proof.Wire.Fields
import Mathlib.Data.List.Basic
import Mathlib.Tactic.IntervalCases

/-!
# Malformed requests

For which bytes `clientReadReq` calls a function that it should call, with a path that has been received.
-/

namespace FileServer

/-! ## Memory that is read into -/

section
variable {before : Nat → UInt8} {n : Nat} {input : List UInt8}

@[simp] theorem length_filled : (filled before n input).length = n := by simp [filled]

theorem filled_eq (before : Nat → UInt8) (n : Nat) (input : List UInt8) :
    filled before n input =
      input.take n ++ (List.range' input.length (n - input.length)).map before := by
  apply List.ext_getElem?
  intro i
  rcases lt_or_ge i n with inside | outside
  · rw [List.getElem?_eq_getElem (by simpa using inside)]
    rcases lt_or_ge i input.length with arrived | missing
    · rw [List.getElem?_append_left (by simp; omega)]
      simp [filled, inside, arrived]
    · have taken : (input.take n).length = input.length := by simp; omega
      rw [List.getElem?_append_right (by omega), taken, List.getElem?_map,
        List.getElem?_range' (by omega)]
      simp [filled, missing, Nat.add_sub_cancel' missing]
  · rw [List.getElem?_eq_none (by simpa using outside), List.getElem?_eq_none (by simp; omega)]

theorem filled_complete (complete : n ≤ input.length) : filled before n input = input.take n := by
  rw [filled_eq, Nat.sub_eq_zero_of_le complete]
  simp

theorem zero_mem_filled_one : 0 ∈ filled (fun _ => 1) n input ↔ 0 ∈ input.take n := by
  simp [filled_eq]

theorem nonneg_of_incomplete (incomplete : input.length < 4) :
    0 ≤ cInt (ofLeBytes (filled (fun _ => 0) 4 input)) := by
  have last : filled (fun _ => 0) 4 input = filled (fun _ => 0) 3 input ++ [0] := by
    simp [filled, List.range_succ, List.getElem?_eq_none (show input.length ≤ 3 by omega)]
  have value (bytes : List UInt8) : ofLeBytes (bytes ++ [0]) = ofLeBytes bytes := by
    induction bytes with
    | nil => rfl
    | cons b bytes ih => rw [List.cons_append, ofLeBytes, ofLeBytes, ih]
  have small := ofLeBytes_lt (filled (fun _ => 0) 3 input)
  rw [length_filled] at small
  rw [last, value, cInt_of_small (by omega) (by omega)]
  omega

end

/-! ## Strings -/

theorem cString_append {bytes : List UInt8} (ends : 0 ∈ bytes) (rest : List UInt8) :
    cString (bytes ++ rest) = cString bytes ∧ cString bytes ++ [0] <+: bytes := by
  obtain ⟨s, after, rfl, plain⟩ := List.eq_append_cons_of_mem ends
  rw [List.append_assoc, List.cons_append, cString_of_nul plain, cString_of_nul plain]
  exact ⟨rfl, after, by simp⟩

section
variable {before : Uninitialized} {input : List UInt8}

def pathSize (input : List UInt8) : Int := cInt (ofLeBytes (input.take 4))

def pathBlock (before : Uninitialized) (input : List UInt8) : List UInt8 :=
  filled before.filePath (pathSize input).toNat (input.drop 4)

theorem readFilePath_complete (complete : 4 ≤ input.length) : readFilePath before input =
    if pathSize input < 0 then .mallocError
    else if 0 ∈ pathBlock before input then .path (cString (pathBlock before input)) else .overrun := by
  rw [readFilePath, filled_complete complete]
  rfl

theorem readFilePath_negative (complete : 4 ≤ input.length) (negative : pathSize input < 0) :
    readFilePath before input = .mallocError := by
  rw [readFilePath_complete complete, if_pos negative]

def pathArrived (input : List UInt8) : List UInt8 := (input.drop 4).take (pathSize input).toNat

theorem pathBlock_ends (ends : 0 ∈ pathArrived input) :
    0 ∈ pathBlock before input ∧ cString (pathBlock before input) = cString (pathArrived input) := by
  rw [pathBlock, filled_eq]
  exact ⟨List.mem_append_left _ ends, (cString_append ends _).1⟩

theorem readFilePath_path (complete : 4 ≤ input.length) (nonneg : 0 ≤ pathSize input)
    (ends : 0 ∈ pathArrived input) :
    readFilePath before input = .path (cString (pathArrived input)) := by
  have read := @pathBlock_ends before input ends
  rw [readFilePath_complete complete, if_neg (not_lt.mpr nonneg), if_pos read.1, read.2]

theorem cString_pathArrived (ends : 0 ∈ pathArrived input) :
    cString (pathArrived input) ++ [0] <+: input.drop 4 :=
  (cString_append ends []).2.trans (List.take_prefix ..)

end

/-! ## The worker -/

section
variable {W α : Type} {cfg : Config} {w : W} {s s' : Server W} {input : List UInt8}

theorem run_fed_readNB (n : Nat) (k : List UInt8 → Worker α) :
    (fed W cfg).run w (Socket.readNB n >>= k) (input, s) =
      (fed W cfg).run w (k (input.take n)) (input.drop n, s) := rfl

theorem run_fed_size (k : Int → Worker α) (complete : 4 ≤ input.length) :
    (fed W cfg).run w (Socket.readNB 4 >>= fun size => handled (given (intOf size)) >>= k) (input, s) =
      (fed W cfg).run w (k (pathSize input)) (input.drop 4, s) := by
  have four : (input.take 4).length = 4 := List.length_take_of_le complete
  rw [run_fed_readNB, intOf, if_pos four]
  rfl

theorem run_fed_readPath_negative (complete : 4 ≤ input.length) (negative : pathSize input < 0) :
    (fed W cfg).run w Socket.readPath (input, s) = .ok (none, (input.drop 4, s)) := by
  unfold Socket.readPath
  rw [run_fed_size _ complete, if_pos negative]
  rfl

/-! ## A path that cannot be allocated -/

theorem run_fed_fileSearchSilent (complete : 4 ≤ input.length) (negative : pathSize input < 0) :
    (fed W cfg).run w Socket.fileSearchSilent (input, s) = .ok ((-1, none), (input.drop 4, s)) := by
  unfold Socket.fileSearchSilent
  rw [Machine.run_bind_of (run_fed_readPath_negative complete negative)]
  rfl

theorem run_fed_fileOpenCheck (complete : 4 ≤ input.length) (negative : pathSize input < 0) :
    (fed W cfg).run w Socket.fileOpenCheck (input, s) =
      .ok ((-1, none), ((input.drop 4).drop 4, s)) := by
  unfold Socket.fileOpenCheck
  rw [Machine.run_bind_of (run_fed_fileSearchSilent complete negative)]
  rfl

theorem run_fed_updateClients (fd : Nat) (update : Pid → List Pid → List Pid) (complete : 4 ≤ input.length)
    (negative : pathSize input < 0) :
    (fed W cfg).run w (Socket.updateClients fd update) (input, s) =
      .ok ((), ((input.drop 4).drop 4, s.send fd (.int (-1)))) := by
  unfold Socket.updateClients
  rw [Machine.run_bind_of (run_fed_fileSearchSilent complete negative)]
  rfl

/-- The function ends, and has left the store as it was. -/
def Refuses (cfg : Config) (w : W) (p : Worker Unit) (input : List UInt8) (s : Server W) : Prop :=
  ∃ rest s', (fed W cfg).run w p (input, s) = .ok ((), (rest, s')) ∧ s'.store = s.store

theorem not_refuses_write (fuel fd : Nat) (complete : 4 ≤ input.length) (negative : pathSize input < 0) :
    ¬Refuses cfg w (Socket.fileWrite cfg fuel fd) input s ∧
      ¬Refuses cfg w (Socket.fileAppend cfg fuel fd) input s := by
  have checked : (fed W cfg).run w Socket.fileOpenCheck (input, s) = _ :=
    run_fed_fileOpenCheck complete negative
  constructor
  · intro ⟨rest, s', ran, _⟩
    rw [Socket.fileWrite, Machine.run_bind_of checked] at ran
    cases ran
  · intro ⟨rest, s', ran, _⟩
    rw [Socket.fileAppend, Machine.run_bind_of checked] at ran
    cases ran

theorem refuses_answer (fd : Nat) (complete : 4 ≤ input.length) (negative : pathSize input < 0) :
    Refuses cfg w (Socket.fileRead cfg fd) input s ∧ Refuses cfg w (Socket.fileDelete fd) input s := by
  have checked : (fed W cfg).run w Socket.fileOpenCheck (input, s) = _ :=
    run_fed_fileOpenCheck complete negative
  refine ⟨⟨(input.drop 4).drop 4, s.send fd (.int (-1)), ?_, rfl⟩,
    ⟨(input.drop 4).drop 4, s.send fd (.int (-1)), ?_, rfl⟩⟩
  · rw [Socket.fileRead, Machine.run_bind_of checked]
    rfl
  · rw [Socket.fileDelete, Machine.run_bind_of checked]
    rfl

theorem refuses_silent (fd : Nat) (complete : 4 ≤ input.length) (negative : pathSize input < 0) :
    Refuses cfg w (Socket.fileSearch fd) input s ∧ Refuses cfg w (Socket.fileInit fd) input s := by
  have path : (fed W cfg).run w Socket.readPath (input, s) = _ :=
    run_fed_readPath_negative complete negative
  refine ⟨⟨input.drop 4, s, ?_, rfl⟩, ⟨input.drop 4, s, ?_, rfl⟩⟩
  · rw [Socket.fileSearch, Machine.run_bind_of path]
    rfl
  · rw [Socket.fileInit, Machine.run_bind_of path]
    rfl

theorem refuses_clients (fd : Nat) (complete : 4 ≤ input.length) (negative : pathSize input < 0) :
    Refuses cfg w (Socket.fileOpen fd) input s ∧ Refuses cfg w (Socket.fileClose fd) input s :=
  ⟨⟨_, _, run_fed_updateClients fd _ complete negative, rfl⟩,
    ⟨_, _, run_fed_updateClients fd _ complete negative, rfl⟩⟩

theorem refuses_iff (fuel fd : Nat) (rand : Nat → Nat) {func : Int} (low : 0 ≤ func)
    (high : func < numberOfFunctions) (reads : readsPath func) (complete : 4 ≤ input.length)
    (negative : pathSize input < 0) :
    Refuses cfg w (Socket.reqFunArr cfg fuel fd rand func) input s ↔ func ≠ 2 ∧ func ≠ 3 := by
  have small : func < 11 := high
  clear high
  interval_cases func
  case «1» | «7» | «8» => cases reads
  · exact iff_of_true (refuses_answer fd complete negative).1 (by decide)
  · exact iff_of_false (not_refuses_write fuel fd complete negative).1 (by decide)
  · exact iff_of_false (not_refuses_write fuel fd complete negative).2 (by decide)
  · exact iff_of_true (refuses_clients fd complete negative).1 (by decide)
  · exact iff_of_true (refuses_clients fd complete negative).2 (by decide)
  · exact iff_of_true (refuses_answer fd complete negative).2 (by decide)
  · exact iff_of_true (refuses_silent fd complete negative).1 (by decide)
  · exact iff_of_true (refuses_silent fd complete negative).2 (by decide)

/-! ## Every stream -/

/-- A function is called only for a complete code of the table. The path that it reads has been received
with its end, or it refuses the request. -/
structure Contained (cfg : Config) (w : W) (fuel fd : Nat) (rand : Nat → Nat) (input : List UInt8)
    (s : Server W) : Prop where
  called : ∀ before func, Dispatch.clientReadReq before input = .called func →
    4 ≤ input.length ∧ 0 ≤ func ∧ func < numberOfFunctions
  passed : ∀ before func, Dispatch.clientReadReq before input = .called func → readsPath func →
    readFilePath before (input.drop 4) ≠ .overrun ∧
      ∀ filePath, readFilePath before (input.drop 4) = .path filePath → filePath ++ [0] <+: input.drop 8
  refused : ∀ before func, Dispatch.clientReadReq before input = .called func → readsPath func →
    readFilePath before (input.drop 4) = .mallocError →
    Refuses cfg w (Socket.reqFunArr cfg fuel fd rand func) (input.drop 4) s

def funcCode (input : List UInt8) : Int := cInt (ofLeBytes (input.take 4))

/-- The path in front of the remaining bytes is complete, or its length is negative and the function is not
one that writes. -/
def PathArrives (func : Int) (input : List UInt8) : Prop :=
  4 ≤ input.length ∧
    (pathSize input < 0 ∧ func ≠ 2 ∧ func ≠ 3 ∨ 0 ≤ pathSize input ∧ 0 ∈ pathArrived input)

def Arrives (input : List UInt8) : Prop :=
  input = [] ∨ 4 ≤ input.length ∧ 0 ≤ funcCode input ∧ funcCode input < numberOfFunctions ∧
    (readsPath (funcCode input) → PathArrives (funcCode input) (input.drop 4))

instance (func : Int) (input : List UInt8) : Decidable (PathArrives func input) :=
  inferInstanceAs (Decidable (_ ∧ _))

instance (input : List UInt8) : Decidable (Arrives input) := inferInstanceAs (Decidable (_ ∨ _))

theorem clientReadReq_of_ne (before : Uninitialized) (some : input ≠ []) :
    Dispatch.clientReadReq before input = .called (cInt (ofLeBytes (filled before.func 4 input))) := by
  have read : (input.take 4).length ≠ 0 := by
    have length := List.length_pos_iff.mpr some
    simp
    omega
  exact if_neg read

theorem clientReadReq_complete (before : Uninitialized) (complete : 4 ≤ input.length) :
    Dispatch.clientReadReq before input = .called (funcCode input) := by
  rw [clientReadReq_of_ne before (List.ne_nil_of_length_pos (by omega)), filled_complete complete]
  rfl

def unterminated : Uninitialized := ⟨fun _ => 0, fun _ => 0, fun _ => 1⟩

theorem overrun_of_incomplete (incomplete : input.length < 4) :
    readFilePath unterminated input = .overrun := by
  have nonneg : 0 ≤ cInt (ofLeBytes (filled unterminated.pathSize 4 input)) :=
    nonneg_of_incomplete incomplete
  have nothing : input.drop 4 = [] := List.drop_eq_nil_of_le (by omega)
  have plain (n : Nat) : 0 ∉ filled unterminated.filePath n (input.drop 4) := by
    rw [nothing]
    exact mt zero_mem_filled_one.mp (by simp)
  rw [readFilePath]
  exact (if_neg (not_lt.mpr nonneg)).trans (if_neg (plain _))

theorem overrun_of_plain (complete : 4 ≤ input.length) (nonneg : 0 ≤ pathSize input)
    (plain : 0 ∉ pathArrived input) : readFilePath unterminated input = .overrun := by
  have plain' : 0 ∉ pathBlock unterminated input := mt zero_mem_filled_one.mp plain
  rw [readFilePath_complete complete, if_neg (not_lt.mpr nonneg), if_neg plain']

theorem Contained.arrives {fuel fd : Nat} {rand : Nat → Nat}
    (contained : Contained cfg w fuel fd rand input s) : Arrives input := by
  by_cases gone : input = []
  · exact .inl gone
  · have code := (contained.called unterminated _ (clientReadReq_of_ne _ gone)).1
    have arrived (before : Uninitialized) := clientReadReq_complete before code
    have inside := (contained.called unterminated _ (arrived _)).2
    refine .inr ⟨code, inside.1, inside.2, fun reads => ?_⟩
    have ends := (contained.passed unterminated _ (arrived _) reads).1
    have complete : 4 ≤ (input.drop 4).length :=
      not_lt.mp fun incomplete => ends (overrun_of_incomplete incomplete)
    refine ⟨complete, ?_⟩
    rcases lt_or_ge (pathSize (input.drop 4)) 0 with negative | nonneg
    · have refused := contained.refused unterminated _ (arrived _) reads
        (readFilePath_negative complete negative)
      have silent := (refuses_iff fuel fd rand inside.1 inside.2 reads complete negative).mp refused
      exact .inl ⟨negative, silent⟩
    · have terminated : 0 ∈ pathArrived (input.drop 4) :=
        not_not.mp fun plain => ends (overrun_of_plain complete nonneg plain)
      exact .inr ⟨nonneg, terminated⟩

theorem Arrives.contained (arrives : Arrives input) (fuel fd : Nat) (rand : Nat → Nat) :
    Contained cfg w fuel fd rand input s := by
  rcases arrives with rfl | ⟨code, low, high, path⟩
  · have silent {before func} (called : Dispatch.clientReadReq before [] = .called func) : False := by
      cases called
    exact ⟨fun _ _ called => (silent called).elim, fun _ _ called => (silent called).elim,
      fun _ _ called => (silent called).elim⟩
  · have arrived (before : Uninitialized) := clientReadReq_complete before code
    have same {before func} (called : Dispatch.clientReadReq before input = .called func) :
        func = funcCode input := Arrived.called.inj (called.symm.trans (arrived before))
    constructor
    · intro before func called
      rw [same called]
      exact ⟨code, low, high⟩
    · intro before func called reads
      rw [same called] at reads
      obtain ⟨complete, ⟨negative, _⟩ | ⟨nonneg, ends⟩⟩ := path reads
      · rw [readFilePath_negative complete negative]
        exact ⟨by decide, fun _ read => by cases read⟩
      · rw [readFilePath_path complete nonneg ends]
        refine ⟨by simp, fun filePath read => ?_⟩
        obtain rfl := PathRead.path.inj read
        have received := cString_pathArrived ends
        rwa [List.drop_drop] at received
    · intro before func called reads failed
      rw [same called] at reads ⊢
      obtain ⟨complete, ⟨negative, silent⟩ | ⟨nonneg, ends⟩⟩ := path reads
      · exact (refuses_iff fuel fd rand low high reads complete negative).mpr silent
      · rw [readFilePath_path complete nonneg ends] at failed
        cases failed

/-- Requests are contained exactly when they arrive complete as far as they are looked at. -/
theorem contained_iff (fuel fd : Nat) (rand : Nat → Nat) :
    Contained cfg w fuel fd rand input s ↔ Arrives input :=
  ⟨Contained.arrives, fun arrives => arrives.contained fuel fd rand⟩

end

/-- A code of one byte, a code past the table, a path without its end, and a write to a path that cannot
be allocated. -/
theorem requests_escape :
    ¬Contained smallConfig () 0 0 id [4] (Server.initial Unit smallConfig) ∧
      ¬Contained smallConfig () 0 0 id [11, 0, 0, 0] (Server.initial Unit smallConfig) ∧
      ¬Contained smallConfig () 0 0 id [4, 0, 0, 0, 1, 0, 0, 0, 97] (Server.initial Unit smallConfig) ∧
      ¬Contained smallConfig () 0 0 id [2, 0, 0, 0, 255, 255, 255, 255]
        (Server.initial Unit smallConfig) :=
  ⟨mt Contained.arrives (by decide), mt Contained.arrives (by decide), mt Contained.arrives (by decide),
    mt Contained.arrives (by decide)⟩

end FileServer
