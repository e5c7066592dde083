import FileServer.Model.Descriptors
import FileServer.Proof.Arithmetic
import Mathlib.Data.Nat.Find
import Mathlib.Tactic.IntervalCases

/-!
# `readNB` and the results of `read`

The loop tests a `size_t` for a negative value, so that it takes an error for a transfer of `2 ^ 64 - 1`
bytes and goes on.
-/

namespace FileServer

/-- The bytes that the first `i` calls of `read` have stored. -/
def stored (reads : Nat → Int) : Nat → Nat
  | 0 => 0
  | i + 1 => stored reads i + (reads i).toNat

/-- `read` fails, or returns at most what it was asked for. -/
def LegalReads (n : Nat) (reads : Nat → Int) : Prop :=
  ∀ i s, readNB n reads i = .again s → -1 ≤ reads i ∧ reads i ≤ s.nLeft

/-- After `m` calls of `read` there is nothing left to do: `n` bytes have arrived, or the last call
returned 0 or -1. -/
def ReadsOver (n : Nat) (reads : Nat → Int) (m : Nat) : Prop :=
  stored reads m = n ∨ ∃ i, m = i + 1 ∧ reads i ≤ 0

/-- `readNB` makes `m` calls of `read`, all of them into the destination, and not one more than it
should; `s` is where it leaves its variables. -/
structure SafeRead (n : Nat) (reads : Nat → Int) (m : Nat) (s : ReadNB) : Prop where
  ends : readNB n reads m = .over s
  complete : ReadsOver n reads m
  before : ∀ i < m, ¬ReadsOver n reads i ∧ ∃ t, readNB n reads i = .again t ∧
    t.buff + (reads i).toNat ≤ n
  returned : s.returned n = stored reads m ∧ stored reads m ≤ n ∨
    m = 1 ∧ reads 0 = -1 ∧ s.returned n = sizeT (-1)

section
variable {n m i : Nat} {reads : Nat → Int} {s : ReadNB}

theorem stored_grows (reads : Nat → Int) {i m : Nat} (le : i ≤ m) : stored reads i ≤ stored reads m := by
  induction m, le using Nat.le_induction with
  | base => exact Nat.le_refl _
  | succ m _ ih => exact Nat.le_trans ih (Nat.le_add_right ..)

theorem readNB_succ (n : Nat) (reads : Nat → Int) (i : Nat) : readNB n reads (i + 1) =
    match readNB n reads i with
    | .again s => s.turn (reads i)
    | .over s => .over s := rfl

theorem readNB_unfinished (size : n < 2 ^ 64) (legal : LegalReads n reads)
    (unfinished : ∀ j ≤ i, ¬ReadsOver n reads j) :
    readNB n reads i = .again ⟨n - stored reads i, stored reads i⟩ ∧ stored reads i < n := by
  induction i with
  | zero =>
      have some : 0 < n := Nat.pos_of_ne_zero fun none => unfinished 0 (Nat.le_refl 0) (.inl none.symm)
      refine ⟨?_, some⟩
      show ReadNB.test ⟨n, 0⟩ = _
      unfold ReadNB.test
      rw [if_pos some]
      rfl
  | succ i ih =>
      obtain ⟨loop, less⟩ := ih fun j le => unfinished j (Nat.le_succ_of_le le)
      have stopped := unfinished (i + 1) (Nat.le_refl _)
      have positive : 0 < reads i := by
        by_contra short
        exact stopped (.inr ⟨i, rfl, Int.not_lt.mp short⟩)
      have asked := (legal i _ loop).2
      obtain ⟨k, count⟩ : ∃ k : Nat, reads i = k := Int.eq_ofNat_of_zero_le (Int.le_of_lt positive)
      have sum : stored reads (i + 1) = stored reads i + k := by
        show stored reads i + (reads i).toNat = _
        rw [count, Int.toNat_natCast]
      have missing : stored reads (i + 1) ≠ n := fun all => stopped (.inl all)
      rw [count] at positive asked
      dsimp only at asked
      have more : 0 < n - (stored reads i + k) := by omega
      refine ⟨?_, by omega⟩
      rw [readNB_succ, loop, sum, count]
      show ReadNB.turn _ _ = _
      have left : ((n - stored reads i : Nat) : Int) - (k : Int) = (n - (stored reads i + k) : Nat) := by
        omega
      have moved : ((stored reads i : Nat) : Int) + (k : Int) = (stored reads i + k : Nat) := by omega
      unfold ReadNB.turn
      simp only
      rw [sizeT_of_small (by omega), if_neg (by omega), left, moved, sizeT_of_small (by omega),
        sizeT_of_small (by omega)]
      unfold ReadNB.test
      rw [if_pos more]

theorem readsOver_exists (legal : LegalReads n reads) (size : n < 2 ^ 64) :
    ∃ m, ReadsOver n reads m := by
  by_contra none
  have unfinished : ∀ j, ¬ReadsOver n reads j := fun j finished => none ⟨j, finished⟩
  have progress : ∀ i, i ≤ stored reads i := by
    intro i
    induction i with
    | zero => exact Nat.zero_le _
    | succ i ih =>
        have positive : 0 < reads i := by
          by_contra short
          exact unfinished (i + 1) (.inr ⟨i, rfl, Int.not_lt.mp short⟩)
        show i + 1 ≤ stored reads i + (reads i).toNat
        omega
  have less := (readNB_unfinished (i := n) size legal fun j _ => unfinished j).2
  exact absurd (progress n) (Nat.not_le.mpr less)

theorem readNB_last (size : n < 2 ^ 64) (legal : LegalReads n reads)
    (unfinished : ∀ j ≤ i, ¬ReadsOver n reads j) (finished : ReadsOver n reads (i + 1))
    (works : reads i ≠ -1) : stored reads (i + 1) ≤ n ∧
      ∃ s, readNB n reads (i + 1) = .over s ∧ s.returned n = stored reads (i + 1) := by
  obtain ⟨loop, less⟩ := readNB_unfinished size legal unfinished
  have bounds := legal i _ loop
  dsimp only at bounds
  obtain ⟨k, count⟩ : ∃ k : Nat, reads i = k := Int.eq_ofNat_of_zero_le (by omega)
  have sum : stored reads (i + 1) = stored reads i + k := by
    show stored reads i + (reads i).toNat = _
    rw [count, Int.toNat_natCast]
  have next : readNB n reads (i + 1) = ReadNB.turn ⟨n - stored reads i, stored reads i⟩ k := by
    rw [readNB_succ, loop, count]
  rw [count] at bounds
  refine ⟨by omega, ?_⟩
  rw [next]
  unfold ReadNB.turn
  simp only
  rw [sizeT_of_small (by omega)]
  by_cases eof : k = 0
  · subst eof
    have left : (n : Int) - ((n - stored reads i : Nat) : Int) = (stored reads i : Nat) := by omega
    refine ⟨_, if_pos rfl, ?_⟩
    show sizeT (n - ((n - stored reads i : Nat) : Int)) = _
    rw [left, sizeT_of_small (by omega), sum]
    rfl
  · have all : stored reads i + k = n := by
      rcases finished with all | ⟨j, same, short⟩
      · rw [← sum]
        exact all
      · cases Nat.succ.inj same
        omega
    have left : ((n - stored reads i : Nat) : Int) - (k : Int) = (0 : Nat) := by omega
    rw [if_neg eof, left, sizeT_of_small (by omega)]
    refine ⟨_, if_neg (Nat.lt_irrefl 0), ?_⟩
    show sizeT (n - ((0 : Nat) : Int)) = _
    rw [Int.natCast_zero, Int.sub_zero, sizeT_of_small size, sum, all]

/-- After an error the loop goes on with one byte more to read, and from one byte before. -/
theorem readNB_error (size : n < 2 ^ 64) (legal : LegalReads n reads)
    (unfinished : ∀ j ≤ i, ¬ReadsOver n reads j) (fails : reads i = -1) :
    readNB n reads (i + 1) =
      ReadNB.test ⟨sizeT (n - stored reads i + 1 : Nat), sizeT (stored reads i + (2 ^ 64 - 1))⟩ := by
  obtain ⟨loop, less⟩ := readNB_unfinished size legal unfinished
  rw [readNB_succ, loop, fails]
  show ReadNB.turn _ _ = _
  have huge : sizeT (-1) = 2 ^ 64 - 1 := by decide
  unfold ReadNB.turn
  simp only
  rw [huge, if_neg (by decide)]
  congr 2
  unfold sizeT
  omega

theorem unfinished_of_positive (positive : ∀ j < i, 0 < reads j) (less : stored reads i < n) :
    ∀ j ≤ i, ¬ReadsOver n reads j := by
  rintro j le (all | ⟨l, rfl, short⟩)
  · have grows := stored_grows reads le
    omega
  · have := positive l (by omega)
    omega

/-- `readNB` does what it should unless one of its calls of `read` fails. A destination of `2 ^ 64 - 1`
bytes makes an exception of the first call: what is left wraps to zero, and the error value comes
back. -/
theorem readNB_safe (size : n < 2 ^ 64) (legal : LegalReads n reads) :
    (∃ m s, SafeRead n reads m s) ↔ ∀ i, (∀ j < i, 0 < reads j) → stored reads i < n →
      reads i = -1 → i = 0 ∧ n = 2 ^ 64 - 1 := by
  classical
  constructor
  · rintro ⟨m, s, safe⟩ i positive less fails
    have unfinished := unfinished_of_positive positive less
    have loop := readNB_error size legal unfinished fails
    have ended : ReadsOver n reads (i + 1) := .inr ⟨i, rfl, by rw [fails]; decide⟩
    have last : m ≤ i + 1 := by
      by_contra further
      exact (safe.before (i + 1) (Nat.not_le.mp further)).1 ended
    have first : i < m := by
      by_contra early
      exact unfinished m (Nat.not_lt.mp early) safe.complete
    have same : m = i + 1 := by omega
    have ends := safe.ends
    rw [same, loop] at ends
    unfold ReadNB.test at ends
    split at ends
    · cases ends
    · rename_i nothing
      have wrapped : sizeT (n - stored reads i + 1 : Nat) = 0 := Nat.eq_zero_of_not_pos nothing
      unfold sizeT at wrapped
      have whole : n = 2 ^ 64 - 1 ∧ stored reads i = 0 := by omega
      refine ⟨?_, whole.1⟩
      by_contra later
      have grows := stored_grows reads (Nat.one_le_iff_ne_zero.mpr later)
      have some := positive 0 (Nat.pos_of_ne_zero later)
      have one : stored reads 1 = (reads 0).toNat := Nat.zero_add _
      omega
  · intro works
    have finished := readsOver_exists legal size
    obtain ⟨m, least⟩ : ∃ m, m = Nat.find finished := ⟨_, rfl⟩
    have complete : ReadsOver n reads m := least ▸ Nat.find_spec finished
    have early : ∀ i < m, ¬ReadsOver n reads i := fun i less =>
      Nat.find_min finished (least ▸ less)
    cases m with
    | zero =>
        rcases id complete with none | ⟨i, wrong, -⟩
        · have empty : n = 0 := none.symm
          subst empty
          exact ⟨0, ⟨0, 0⟩, rfl, complete, fun i less => absurd less (Nat.not_lt_zero i),
            .inl ⟨rfl, Nat.le_refl 0⟩⟩
        · cases wrong
    | succ i =>
        have unfinished : ∀ j ≤ i, ¬ReadsOver n reads j := fun j le => early j (Nat.lt_succ_of_le le)
        obtain ⟨loop, less⟩ := readNB_unfinished size legal unfinished
        have positive : ∀ j < i, 0 < reads j := by
          intro j before
          by_contra short
          exact unfinished (j + 1) before (.inr ⟨j, rfl, Int.not_lt.mp short⟩)
        by_cases fails : reads i = -1
        · obtain ⟨rfl, whole⟩ := works i positive less fails
          have next := readNB_error size legal unfinished fails
          have wraps : ReadNB.test ⟨sizeT (2 ^ 64 - 1 - 0 + 1 : Nat), sizeT ((0 : Nat) + (2 ^ 64 - 1))⟩ =
            .over ⟨0, 2 ^ 64 - 1⟩ := by decide
          subst whole
          refine ⟨1, ⟨0, 2 ^ 64 - 1⟩, next.trans wraps, complete, fun j one => ?_, .inr ⟨rfl, fails, rfl⟩⟩
          cases Nat.lt_one_iff.mp one
          refine ⟨unfinished 0 (Nat.le_refl 0), _, loop, ?_⟩
          rw [fails]
          show 0 + (-1 : Int).toNat ≤ 2 ^ 64 - 1
          decide
        · obtain ⟨inside, s, ends, returned⟩ := readNB_last size legal unfinished complete fails
          refine ⟨i + 1, s, ends, complete, fun j before => ?_, .inl ⟨returned, inside⟩⟩
          have unfinished' : ∀ l ≤ j, ¬ReadsOver n reads l := fun l le =>
            early l (Nat.lt_of_le_of_lt le before)
          obtain ⟨loop', -⟩ := readNB_unfinished size legal unfinished'
          have fits : stored reads (j + 1) ≤ stored reads (i + 1) := stored_grows reads before
          exact ⟨early j before, _, loop', Nat.le_trans fits inside⟩

end

def twoPieces : Nat → Int
  | 0 => 1
  | _ => 3

theorem readNB_safe_example : ∃ m s, SafeRead 4 twoPieces m s :=
  (readNB_safe (by decide) fun i s loop => by
    cases i with
    | zero =>
        cases loop
        decide
    | succ i =>
        have rest : ∀ j, readNB 4 twoPieces (j + 2) = .over ⟨0, 4⟩ := by
          intro j
          induction j with
          | zero => decide
          | succ j ih =>
              rw [readNB_succ, ih]
        cases i with
        | zero =>
            cases loop
            decide
        | succ j => cases (rest j).symm.trans loop).mpr
    fun i _ _ fails => by cases i <;> cases fails

/-- The first call fails, and the second one is asked for five bytes. -/
def failsThenFive : Nat → Int
  | 0 => -1
  | 1 => 5
  | _ => 0

theorem readNB_unsafe : LegalReads 4 failsThenFive ∧ ¬∃ m s, SafeRead 4 failsThenFive m s := by
  have rest : ∀ j, readNB 4 failsThenFive (j + 2) = .over ⟨0, 4⟩ := by
    intro j
    induction j with
    | zero => decide
    | succ j ih =>
        rw [readNB_succ, ih]
  refine ⟨fun i s loop => ?_, ?_⟩
  · rcases i with _ | _ | i
    · cases loop
      decide
    · cases loop
      decide
    · cases (rest i).symm.trans loop
  · rintro ⟨m, s, safe⟩
    have first : ReadsOver 4 failsThenFive 1 := .inr ⟨0, rfl, by decide⟩
    have few : m ≤ 1 := by
      by_contra further
      exact (safe.before 1 (Nat.not_le.mp further)).1 first
    have ends := safe.ends
    interval_cases m <;> cases ends

end FileServer
