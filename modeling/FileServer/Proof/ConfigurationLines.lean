import FileServer.Model.Configuration
import FileServer.Proof.Arithmetic
import Mathlib.Data.List.Forall2

/-!
# The lines of a configuration file

What is on the lines, and what one search after the other finds there.
-/

namespace FileServer

/-! ## What is on the lines -/

/-- A line that has a key and a value. Spaces and `=` separate them; what follows the value is not looked
at. -/
structure Entry (line key value : List Char) : Prop where
  shape : ∃ lead gap rest, line = lead ++ (key ++ (gap ++ (value ++ rest))) ∧
    (∀ c ∈ lead, c ∈ ['=', ' ']) ∧ gap ≠ [] ∧ (∀ c ∈ gap, c ∈ ['=', ' ']) ∧
    ∀ c ∈ rest.head?, c ∈ ['=', ' ', '\n']
  key_ne : key ≠ []
  plainKey : ∀ c ∈ key, c ∉ ['=', ' ', '\n']
  value_ne : value ≠ []
  plainValue : ∀ c ∈ value, c ∉ ['=', ' ', '\n']

def HasKey (line key : List Char) : Prop := ∃ value, Entry line key value

/-- Every line of the key has a number of which this multiple is `n`, and is an `int`. -/
def AllNumbered (lines : List (List Char)) (key : List Char) (factor n : Int) : Prop :=
  ∀ line ∈ lines, ∀ value, Entry line key value → (∀ c ∈ value, c.isDigit) ∧
    0 < digitsValue value ∧ digitsValue value * factor < 2 ^ 31 ∧ n = digitsValue value * factor

def Numbered (lines : List (List Char)) (key : List Char) (factor n : Int) : Prop :=
  (∃ line ∈ lines, HasKey line key) ∧ AllNumbered lines key factor n

def Named (lines : List (List Char)) (key name : List Char) : Prop :=
  (∃ line ∈ lines, HasKey line key) ∧ ∀ line ∈ lines, ∀ value, Entry line key value → name = value

/-- The settings on the lines of a text, none of which is blank, overlong or without a value. -/
structure Loaded (text : List Char) (settings : Settings) : Prop where
  short : ∀ line ∈ linesOf text, line.length < configLineMax
  wellFormed : ∀ line ∈ linesOf text, ∃ key, HasKey line key
  memorySize : Numbered (linesOf text) memorySizeKey (1024 * 1024) settings.serverMemorySize
  pageSize : Numbered (linesOf text) pageSizeKey 1024 settings.pageSize
  fileMax : Numbered (linesOf text) fileMaxKey 1 settings.fileMax
  fileHashTbSize : Numbered (linesOf text) fileHashTbSizeKey 1 settings.fileHashTbSize
  workerThreads : Numbered (linesOf text) workerThreadsKey 1 settings.workerThreadsN
  socketName : ∃ name, settings.socketName = some name ∧ Named (linesOf text) socketNameKey name

/-- The settings of a file that has them are loaded, and any other file is refused. -/
def Loads (text : List Char) : Prop :=
  (∃ settings, configGetAll (some text) = some (some settings) ∧ Loaded text settings) ∨
    configGetAll (some text) = some none ∧ ¬∃ settings, Loaded text settings

theorem Numbered.pos {lines : List (List Char)} {key : List Char} {factor n : Int} (positive : 0 < factor)
    (numbered : Numbered lines key factor n) : 0 < n := by
  obtain ⟨⟨line, mem, value, entry⟩, all⟩ := numbered
  obtain ⟨_, some, _, rfl⟩ := all line mem value entry
  exact mul_pos (by omega) positive

theorem Numbered.multiple {lines : List (List Char)} {key : List Char} {factor n : Int}
    (numbered : Numbered lines key factor n) : ∃ k : Nat, n = k * factor ∧ n < 2 ^ 31 := by
  obtain ⟨⟨line, mem, value, entry⟩, all⟩ := numbered
  obtain ⟨_, _, small, rfl⟩ := all line mem value entry
  exact ⟨digitsValue value, rfl, small⟩

/-- The server can work with the settings of a file. -/
def Loaded.config {text : List Char} {settings : Settings} (loaded : Loaded text settings)
    (few : settings.fileMax < 2 ^ 30) : Config where
  serverMemorySize := settings.serverMemorySize
  pageSize := settings.pageSize
  fileMax := settings.fileMax.toNat
  fileHashTbSize := settings.fileHashTbSize
  pageSize_pos := by exact_mod_cast loaded.pageSize.pos (by decide)
  pageSize_lt := by
    obtain ⟨_, _, small⟩ := loaded.pageSize.multiple
    exact_mod_cast small
  fileMax_pos := by
    have positive := loaded.fileMax.pos one_pos
    omega
  fileMax_lt := by omega
  fileHashTbSize_pos := by exact_mod_cast loaded.fileHashTbSize.pos one_pos
  serverMemorySize_le := by
    obtain ⟨k, multiple, small⟩ := loaded.memorySize.multiple
    omega

/-! ## When they are found -/

/-- The keys are on lines of their own, in this order. -/
def InOrder (keys : List (List Char)) (lines : List (List Char)) : Prop :=
  ∃ picked, picked.Sublist lines ∧ List.Forall₂ HasKey picked keys

/-- The first line of which the first token is the key, with the value after it. -/
def FoundAt (key : List Char) (file : List (List Char)) (value : List Char)
    (rest : List (List Char)) : Prop :=
  ∃ front line save left, file = front ++ line :: rest ∧
    (∀ other ∈ front, ∃ token save, strtok ['=', ' '] other = some (token, save) ∧ token ≠ key) ∧
    strtok ['=', ' '] line = some (key, save) ∧ strtok ['=', ' ', '\n'] save = some (value, left)

/-- One of the numbers is `0` as an `int`; it is found behind the ones that are looked for before it. -/
def ZeroAt : (keys : List (List Char × Int)) → (file : List (List Char)) → Prop
  | [], _ => False
  | (key, factor) :: keys, file =>
      ∃ value rest, FoundAt key file value rest ∧ (cInt (atoi value * factor) = 0 ∨ ZeroAt keys rest)

def numberKeys : List (List Char × Int) :=
  [(memorySizeKey, 1024 * 1024), (pageSizeKey, 1024), (fileMaxKey, 1), (fileHashTbSizeKey, 1),
    (workerThreadsKey, 1)]

/-! ## Tokens of a line -/

section
variable {line key value value' key' save : List Char}

theorem Entry.tokens (entry : Entry line key value) :
    ∃ save left, strtok ['=', ' '] line = some (key, save) ∧
      strtok ['=', ' ', '\n'] save = some (value, left) := by
  obtain ⟨lead, gap, rest, rfl, leads, gap_ne, gaps, ends⟩ := entry.shape
  obtain ⟨c, gap, rfl⟩ := List.exists_cons_of_ne_nil gap_ne
  have keyEnds : ∀ d ∈ (c :: gap ++ (value ++ rest)).head?, d ∈ ['=', ' '] := by
    intro d same
    obtain rfl := Option.some.inj same
    exact gaps c List.mem_cons_self
  have plainKey : ∀ d ∈ key, d ∉ ['=', ' '] := fun d mem sep =>
    entry.plainKey d mem (by simp at sep ⊢; tauto)
  have gaps' : ∀ d ∈ gap, d ∈ ['=', ' ', '\n'] := fun d mem => by
    have sep := gaps d (List.mem_cons_of_mem c mem)
    simp at sep ⊢
    tauto
  refine ⟨gap ++ (value ++ rest), rest.drop 1, ?_, ?_⟩
  · exact strtok_of_token leads entry.key_ne plainKey keyEnds
  · exact strtok_of_token gaps' entry.value_ne entry.plainValue ends

theorem Entry.unique (entry : Entry line key value) (other : Entry line key' value') :
    key = key' ∧ value = value' := by
  obtain ⟨save, left, first, second⟩ := entry.tokens
  obtain ⟨save', left', first', second'⟩ := other.tokens
  obtain ⟨rfl, rfl⟩ := Prod.mk.inj (Option.some.inj (first.symm.trans first'))
  exact ⟨rfl, congrArg Prod.fst (Option.some.inj (second.symm.trans second'))⟩

theorem Entry.of_tokens (wellFormed : ∃ key, HasKey line key) {left : List Char}
    (first : strtok ['=', ' '] line = some (key, save))
    (second : strtok ['=', ' ', '\n'] save = some (value, left)) : Entry line key value := by
  obtain ⟨key', value', entry⟩ := wellFormed
  obtain ⟨save', left', first', second'⟩ := entry.tokens
  obtain ⟨rfl, rfl⟩ := Prod.mk.inj (Option.some.inj (first'.symm.trans first))
  obtain ⟨rfl, -⟩ := Prod.mk.inj (Option.some.inj (second'.symm.trans second))
  exact entry

theorem length_strtok {delim s token save : List Char} (found : strtok delim s = some (token, save)) :
    token.length ≤ s.length ∧ save.length ≤ s.length := by
  have shorter := List.length_dropWhile_le (· ∈ delim) s
  unfold strtok at found
  split at found
  · cases found
  · rename_i c rest dropped
    rw [dropped] at shorter
    obtain ⟨rfl, rfl⟩ := Prod.mk.inj (Option.some.inj found)
    have left := ((c :: rest).takeWhile_sublist (· ∉ delim)).length_le
    have right := List.length_dropWhile_le (· ∉ delim) (c :: rest)
    refine ⟨left.trans shorter, ?_⟩
    rw [List.length_drop]
    omega

end

/-! ## Searching a key -/

section
variable {key value : List Char} {file rest : List (List Char)}

theorem take_eq_key {token : List Char} (short : key.length < configLineMax) :
    token.take configLineMax = key.take configLineMax ↔ token = key := by
  rw [List.take_of_length_le short.le]
  constructor
  · intro same
    have length := congrArg List.length same
    rw [List.length_take] at length
    rw [← same, List.take_of_length_le (by omega)]
  · rintro rfl
    exact List.take_of_length_le short.le

theorem foundAt_nil : ¬FoundAt key [] value rest := by
  intro ⟨front, _, _, _, shape, _⟩
  cases front <;> cases shape

theorem foundAt_cons {line : List Char} : FoundAt key (line :: file) value rest ↔
    (∃ save left, strtok ['=', ' '] line = some (key, save) ∧
      strtok ['=', ' ', '\n'] save = some (value, left) ∧ rest = file) ∨
    (∃ token save, strtok ['=', ' '] line = some (token, save) ∧ token ≠ key) ∧
      FoundAt key file value rest := by
  constructor
  · intro ⟨front, line', save, left, shape, passed, first, second⟩
    cases front with
    | nil =>
        obtain ⟨rfl, rfl⟩ := List.cons.inj shape
        exact .inl ⟨save, left, first, second, rfl⟩
    | cons other front =>
        obtain ⟨rfl, rfl⟩ := List.cons.inj shape
        exact .inr ⟨passed line List.mem_cons_self, front, line', save, left, rfl,
          fun other mem => passed other (List.mem_cons_of_mem line mem), first, second⟩
  · rintro (⟨save, left, first, second, rfl⟩ | ⟨here, found⟩)
    · exact ⟨[], line, save, left, rfl, List.forall_mem_nil _, first, second⟩
    · obtain ⟨front, line', save, left, rfl, passed, first, second⟩ := found
      exact ⟨line :: front, line', save, left, rfl, List.forall_mem_cons.mpr ⟨here, passed⟩, first,
        second⟩

theorem configGetToken_iff (short : key.length < configLineMax)
    (pieces : ∀ line ∈ file, line.length < configLineMax) :
    configGetToken key file = some (some value, rest) ↔ FoundAt key file value rest := by
  induction file with
  | nil => exact iff_of_false (by simp [configGetToken]) foundAt_nil
  | cons line file ih =>
      have fits := pieces line List.mem_cons_self
      have later := ih fun other mem => pieces other (List.mem_cons_of_mem line mem)
      rw [configGetToken, foundAt_cons]
      cases first : strtok ['=', ' '] line with
      | none => simp
      | some pair =>
          obtain ⟨token, save⟩ := pair
          simp only [Option.bind_eq_bind, Option.bind_some, take_eq_key short]
          by_cases same : token = key
          · cases second : strtok ['=', ' ', '\n'] save with
            | none => simp [same, second]
            | some pair =>
                obtain ⟨value', left⟩ := pair
                have length : value'.length < configLineMax :=
                  ((length_strtok second).1.trans (length_strtok first).2).trans_lt fits
                have whole : value'.take (configLineMax - 1) = value' :=
                  List.take_of_length_le (Nat.le_sub_one_of_lt length)
                simp [same, second, whole, eq_comm]
          · simp [same, later]

theorem configGetInt_iff {n : Int} (short : key.length < configLineMax)
    (pieces : ∀ line ∈ file, line.length < configLineMax) :
    configGetInt key file = some (n, rest) ↔ ∃ value, FoundAt key file value rest ∧ n = atoi value := by
  simp only [← configGetToken_iff short pieces, configGetInt]
  cases search : configGetToken key file with
  | none => simp
  | some pair =>
      obtain ⟨token, left⟩ := pair
      cases token with
      | none => simp
      | some token => simp [eq_comm, and_comm]

theorem exists_foundAt_iff (P : Int → List (List Char) → Prop) (short : key.length < configLineMax)
    (pieces : ∀ line ∈ file, line.length < configLineMax) :
    (∃ value rest, FoundAt key file value rest ∧ P (atoi value) rest) ↔
      ∃ n rest, configGetInt key file = some (n, rest) ∧ P n rest := by
  simp only [configGetInt_iff short pieces]
  constructor
  · intro ⟨value, rest, found, holds⟩
    exact ⟨atoi value, rest, ⟨value, found, rfl⟩, holds⟩
  · rintro ⟨_, rest, ⟨value, found, rfl⟩, holds⟩
    exact ⟨value, rest, found, holds⟩

theorem FoundAt.suffix (found : FoundAt key file value rest) : rest.Sublist file := by
  obtain ⟨front, line, save, left, rfl, _⟩ := found
  exact ((List.sublist_cons_self line rest).trans (List.sublist_append_right front _))

theorem FoundAt.entry (wellFormed : ∀ line ∈ file, ∃ key, HasKey line key)
    (found : FoundAt key file value rest) : ∃ line ∈ file, Entry line key value := by
  obtain ⟨front, line, save, left, rfl, _, first, second⟩ := found
  have mem : line ∈ front ++ line :: rest := by simp
  exact ⟨line, mem, .of_tokens (wellFormed line mem) first second⟩

/-! ## Order -/

theorem exists_foundAt (wellFormed : ∀ line ∈ file, ∃ key, HasKey line key)
    (here : ∃ line ∈ file, HasKey line key) : ∃ value rest, FoundAt key file value rest := by
  induction file with
  | nil =>
      obtain ⟨line, mem, _⟩ := here
      cases mem
  | cons line file ih =>
      obtain ⟨key', value', entry⟩ := wellFormed line List.mem_cons_self
      obtain ⟨save, left, first, second⟩ := entry.tokens
      by_cases same : key' = key
      · subst same
        exact ⟨value', file, foundAt_cons.mpr (.inl ⟨save, left, first, second, rfl⟩)⟩
      · obtain ⟨other, mem, value, hasKey⟩ := here
        have later : other ∈ file := by
          rcases List.mem_cons.mp mem with rfl | later
          · exact absurd (entry.unique hasKey).1 same
          · exact later
        obtain ⟨value, rest, found⟩ :=
          ih (fun line mem => wellFormed line (List.mem_cons_of_mem _ mem)) ⟨other, later, value, hasKey⟩
        exact ⟨value, rest, foundAt_cons.mpr (.inr ⟨⟨key', save, first, same⟩, found⟩)⟩

theorem InOrder.head {keys : List (List Char)} (ordered : InOrder (key :: keys) file) :
    ∃ line ∈ file, HasKey line key := by
  obtain ⟨picked, sublist, keyed⟩ := ordered
  cases keyed with
  | @cons line _ picked _ hasKey keyed => exact ⟨line, sublist.subset List.mem_cons_self, hasKey⟩

theorem inOrder_iff (wellFormed : ∀ line ∈ file, ∃ key, HasKey line key)
    (found : FoundAt key file value rest) (keys : List (List Char)) :
    InOrder (key :: keys) file ↔ InOrder keys rest := by
  obtain ⟨front, line, save, left, rfl, passed, first, second⟩ := found
  have here : HasKey line key := ⟨value, .of_tokens (wellFormed line (by simp)) first second⟩
  constructor
  · intro ⟨picked, sublist, keyed⟩
    cases keyed with
    | @cons other _ picked _ hasKey keyed =>
        obtain ⟨before, behind, both, inFront, inRest⟩ := List.sublist_append_iff.mp sublist
        cases before with
        | nil =>
            obtain rfl : other :: picked = behind := both
            exact ⟨picked, inRest.tail, keyed⟩
        | cons first' before =>
            obtain ⟨rfl, -⟩ := List.cons.inj both
            obtain ⟨value', entry'⟩ := hasKey
            obtain ⟨save', left', first', -⟩ := entry'.tokens
            obtain ⟨token, save'', passes, differs⟩ := passed other (inFront.subset List.mem_cons_self)
            exact absurd (Prod.mk.inj (Option.some.inj (passes.symm.trans first'))).1 differs
  · intro ⟨picked, sublist, keyed⟩
    exact ⟨line :: picked, (sublist.cons_cons line).trans (List.sublist_append_right front _),
      .cons here keyed⟩

/-! ## The numbers -/

/-- The searches for the numbers, one after the other; `none` inside is `-1`. -/
def loadNumbers : (keys : List (List Char × Int)) → (file : List (List Char)) →
    Option (Option (List Int × List (List Char)))
  | [], file => some (some ([], file))
  | (key, factor) :: keys, file => do
      let (n, file) ← configGetInt key file
      if cInt (n * factor) = 0 then return none
      let loaded ← loadNumbers keys file
      return loaded.map fun (ns, file) => (cInt (n * factor) :: ns, file)

theorem loadNumbers_none (keys : List (List Char × Int))
    (short : ∀ key ∈ keys, key.1.length < configLineMax)
    (pieces : ∀ line ∈ file, line.length < configLineMax) :
    loadNumbers keys file = some none ↔ ZeroAt keys file := by
  induction keys generalizing file with
  | nil => simp [loadNumbers, ZeroAt]
  | cons key keys ih =>
      obtain ⟨key, factor⟩ := key
      obtain ⟨here, later⟩ := List.forall_mem_cons.mp short
      rw [loadNumbers, ZeroAt,
        exists_foundAt_iff (fun n rest => cInt (n * factor) = 0 ∨ ZeroAt keys rest) here pieces]
      cases search : configGetInt key file with
      | none => simp
      | some pair =>
          obtain ⟨n, rest⟩ := pair
          obtain ⟨value, found, -⟩ := (configGetInt_iff here pieces).mp search
          have onward := @ih rest later fun line mem => pieces line (found.suffix.subset mem)
          by_cases zero : cInt (n * factor) = 0
          · simp [zero]
          · cases loaded : loadNumbers keys rest <;> simp [zero, loaded, ← onward]

abbrev NumberedAs (lines : List (List Char)) (keys : List (List Char × Int)) (ns : List Int) : Prop :=
  List.Forall₂ (fun key n => AllNumbered lines key.1 key.2 n) keys ns

theorem AllNumbered.sublist {factor n : Int} (numbered : AllNumbered file key factor n)
    (sub : rest.Sublist file) : AllNumbered rest key factor n :=
  fun line mem => numbered line (sub.subset mem)

theorem NumberedAs.sublist {keys : List (List Char × Int)} {ns : List Int}
    (numbered : NumberedAs file keys ns) (sub : rest.Sublist file) : NumberedAs rest keys ns :=
  List.Forall₂.imp (fun _ _ here => here.sublist sub) numbered

theorem cInt_numbered {factor n : Int} (wellFormed : ∀ line ∈ file, ∃ key, HasKey line key)
    (positive : 0 < factor) (numbered : AllNumbered file key factor n)
    (found : FoundAt key file value rest) : cInt (atoi value * factor) = n ∧ 0 < n := by
  obtain ⟨line, mem, entry⟩ := found.entry wellFormed
  obtain ⟨decimal, some, small, rfl⟩ := numbered line mem value entry
  have one : (digitsValue value : Int) ≤ digitsValue value * factor :=
    le_mul_of_one_le_right (by omega) positive
  have product : 0 < (digitsValue value : Int) * factor := by omega
  rw [atoi_digits decimal (by omega), cInt_of_small (by omega) small]
  exact ⟨rfl, product⟩

theorem loadNumbers_cons {keys : List (List Char × Int)} {factor n : Int}
    (fits : key.length < configLineMax ∧ 0 < factor)
    (pieces : ∀ line ∈ file, line.length < configLineMax)
    (wellFormed : ∀ line ∈ file, ∃ key, HasKey line key) (numbered : AllNumbered file key factor n)
    (found : FoundAt key file value rest) :
    loadNumbers ((key, factor) :: keys) file =
      (loadNumbers keys rest).map (Option.map fun (ns, left) => (n :: ns, left)) := by
  obtain ⟨product, positive⟩ := cInt_numbered wellFormed fits.2 numbered found
  have search := (configGetInt_iff fits.1 pieces).mpr ⟨value, found, rfl⟩
  have nonzero : ¬n = 0 := positive.ne'
  simp only [loadNumbers, search, Option.bind_eq_bind, Option.bind_some, product, if_neg nonzero]
  cases loadNumbers keys rest <;> rfl

theorem loadNumbers_some {keys : List (List Char × Int)} {ns : List Int}
    (short : ∀ key ∈ keys, key.1.length < configLineMax ∧ 0 < key.2)
    (pieces : ∀ line ∈ file, line.length < configLineMax)
    (wellFormed : ∀ line ∈ file, ∃ key, HasKey line key) (numbered : NumberedAs file keys ns)
    {loaded : Option (List Int × List (List Char))} (ran : loadNumbers keys file = some loaded) :
    ∃ rest, loaded = some (ns, rest) ∧ rest.Sublist file ∧
      ∀ more, InOrder (keys.map Prod.fst ++ more) file ↔ InOrder more rest := by
  induction keys generalizing file ns loaded with
  | nil =>
      obtain rfl := List.forall₂_nil_left_iff.mp numbered
      cases ran
      exact ⟨file, rfl, List.Sublist.refl file, fun more => Iff.rfl⟩
  | cons key keys ih =>
      obtain ⟨key, factor⟩ := key
      cases numbered with
      | @cons _ n _ ns here numbered =>
          obtain ⟨fits, later⟩ := List.forall_mem_cons.mp short
          cases search : configGetInt key file with
          | none => simp [loadNumbers, search] at ran
          | some pair =>
              obtain ⟨m, left⟩ := pair
              obtain ⟨value, found, -⟩ := (configGetInt_iff fits.1 pieces).mp search
              have sub := found.suffix
              rw [loadNumbers_cons fits pieces wellFormed here found] at ran
              obtain ⟨loaded', onward, rfl⟩ := Option.map_eq_some_iff.mp ran
              obtain ⟨rest, rfl, sub', ordered⟩ := ih later (fun line mem => pieces line (sub.subset mem))
                (fun line mem => wellFormed line (sub.subset mem)) (NumberedAs.sublist numbered sub) onward
              refine ⟨rest, rfl, sub'.trans sub, fun more => ?_⟩
              exact (inOrder_iff wellFormed found _).trans (ordered more)

theorem exists_loadNumbers {keys : List (List Char × Int)} {ns : List Int} (more : List (List Char))
    (short : ∀ key ∈ keys, key.1.length < configLineMax ∧ 0 < key.2)
    (pieces : ∀ line ∈ file, line.length < configLineMax)
    (wellFormed : ∀ line ∈ file, ∃ key, HasKey line key) (numbered : NumberedAs file keys ns)
    (ordered : InOrder (keys.map Prod.fst ++ more) file) :
    ∃ loaded, loadNumbers keys file = some loaded := by
  induction keys generalizing file ns with
  | nil => exact ⟨some ([], file), rfl⟩
  | cons key keys ih =>
      obtain ⟨key, factor⟩ := key
      cases numbered with
      | @cons _ n _ ns here numbered =>
          obtain ⟨fits, later⟩ := List.forall_mem_cons.mp short
          obtain ⟨value, left, found⟩ := exists_foundAt wellFormed ordered.head
          have sub := found.suffix
          obtain ⟨loaded, onward⟩ := ih later (fun line mem => pieces line (sub.subset mem))
            (fun line mem => wellFormed line (sub.subset mem)) (NumberedAs.sublist numbered sub)
            ((inOrder_iff wellFormed found _).mp ordered)
          rw [loadNumbers_cons fits pieces wellFormed here found, onward]
          exact ⟨_, rfl⟩

end

end FileServer
