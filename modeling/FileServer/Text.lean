import Mathlib.Data.List.TakeWhile

/-!
# Text

`fgets` and `strtok_r` on a text without NULs.
-/

namespace FileServer

/-- The text up to its first newline, which belongs to the line. -/
def lineOf (text : List Char) : List Char :=
  text.takeWhile (· ≠ '\n') ++ (text.dropWhile (· ≠ '\n')).take 1

/-- The rest of the line, as far as the buffer holds it, and what is then left of the text. -/
def fgets (size : Nat) (text : List Char) : Option (List Char × List Char) :=
  if text = [] then none
  else
    let line := (lineOf text).take (size - 1)
    some (line, text.drop line.length)

/-- What the calls of `fgets` return, one after the other. -/
def fgetsAll (size : Nat) : (fuel : Nat) → List Char → List (List Char)
  | 0, _ => []
  | fuel + 1, text => match fgets size text with
    | none => []
    | some (line, rest) => line :: fgetsAll size fuel rest

def linesOf : List Char → List (List Char)
  | [] => []
  | c :: text =>
      if c = '\n' then [c] :: linesOf text
      else match linesOf text with
        | [] => [[c]]
        | line :: lines => (c :: line) :: lines

/-- The first token, and what `save` then points to. -/
def strtok (delim s : List Char) : Option (List Char × List Char) :=
  match s.dropWhile (· ∈ delim) with
  | [] => none
  | c :: s => some ((c :: s).takeWhile (· ∉ delim), ((c :: s).dropWhile (· ∉ delim)).drop 1)

section
variable {text : List Char}

theorem linesOf_eq (some : text ≠ []) :
    linesOf text = lineOf text :: linesOf (text.drop (lineOf text).length) := by
  induction text with
  | nil => exact absurd rfl some
  | cons c text ih =>
      by_cases newline : c = '\n'
      · simp [linesOf, lineOf, newline]
      · have longer : lineOf (c :: text) = c :: lineOf text := by simp [lineOf, newline]
        rw [longer, linesOf, if_neg newline]
        cases text with
        | nil => rfl
        | cons d text => rw [ih (List.cons_ne_nil d text)]; rfl

theorem length_lineOf (some : text ≠ []) :
    0 < (lineOf text).length ∧ (lineOf text).length ≤ text.length := by
  have whole :
      (text.takeWhile (· ≠ '\n')).length + (text.dropWhile (· ≠ '\n')).length = text.length := by
    rw [← List.length_append, List.takeWhile_append_dropWhile]
  have positive := List.length_pos_iff.mpr some
  simp only [lineOf, List.length_append, List.length_take]
  omega

theorem fgetsAll_eq {size fuel : Nat} (enough : text.length ≤ fuel)
    (fit : ∀ line ∈ linesOf text, line.length < size) : fgetsAll size fuel text = linesOf text := by
  induction fuel generalizing text with
  | zero =>
      obtain rfl := List.length_eq_zero_iff.mp (Nat.le_zero.mp enough)
      rfl
  | succ fuel ih =>
      by_cases empty : text = []
      · subst empty
        rfl
      · have lines := linesOf_eq empty
        have length := length_lineOf empty
        rw [lines] at fit ⊢
        have short : (lineOf text).length < size := fit _ List.mem_cons_self
        have all : (lineOf text).take (size - 1) = lineOf text := List.take_of_length_le (by omega)
        rw [fgetsAll, fgets, if_neg empty]
        simp only [all]
        rw [ih (by simp; omega) fun line mem => fit line (List.mem_cons_of_mem _ mem)]

theorem fgetsAll_short {size fuel : Nat} (positive : 0 < size) :
    ∀ line ∈ fgetsAll size fuel text, line.length < size := by
  induction fuel generalizing text with
  | zero => exact List.forall_mem_nil _
  | succ fuel ih =>
      by_cases empty : text = []
      · simp [fgetsAll, fgets, empty]
      · rw [fgetsAll, fgets, if_neg empty]
        refine List.forall_mem_cons.mpr ⟨?_, ih⟩
        have cut := List.length_take_le (size - 1) (lineOf text)
        omega

theorem strtok_of_token {delim lead token rest : List Char} (leads : ∀ c ∈ lead, c ∈ delim)
    (nonempty : token ≠ []) (plain : ∀ c ∈ token, c ∉ delim)
    (ends : ∀ c ∈ rest.head?, c ∈ delim) :
    strtok delim (lead ++ (token ++ rest)) = some (token, rest.drop 1) := by
  obtain ⟨c, token, rfl⟩ := List.exists_cons_of_ne_nil nonempty
  have stop : rest.takeWhile (· ∉ delim) = [] ∧ rest.dropWhile (· ∉ delim) = rest := by
    cases rest with
    | nil => exact ⟨rfl, rfl⟩
    | cons d rest => simp [ends d rfl]
  have skipped : (lead ++ (c :: token ++ rest)).dropWhile (· ∈ delim) = c :: token ++ rest := by
    rw [List.dropWhile_append_of_pos (by simpa using leads), List.cons_append, List.dropWhile_cons,
      if_neg (by simpa using plain c List.mem_cons_self)]
  have taken : (c :: token ++ rest).takeWhile (· ∉ delim) = c :: token := by
    rw [List.takeWhile_append_of_pos (by simpa using plain), stop.1, List.append_nil]
  have dropped : (c :: token ++ rest).dropWhile (· ∉ delim) = rest := by
    rw [List.dropWhile_append_of_pos (by simpa using plain), stop.2]
  rw [strtok, skipped]
  exact congrArg some (Prod.ext taken (congrArg (List.drop 1) dropped))

end

end FileServer
