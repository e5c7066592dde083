import FileServer.Proof.ConfigurationLines

/-!
# Configurations

For which files `configGetAll` does what it should: it loads the settings that are on the lines of the
file, in whatever order, and refuses a file that does not have them all.
-/

namespace FileServer

/-! ## The searches of `configGetAll` -/

theorem cInt_configGetInt {key : List Char} {file rest : List (List Char)} {n : Int}
    (read : configGetInt key file = some (n, rest)) : cInt (n * 1) = n := by
  simp only [configGetInt, Option.bind_eq_bind, Option.bind_eq_some_iff] at read
  obtain ⟨⟨token, left⟩, _, value, _, same⟩ := read
  obtain ⟨rfl, -⟩ := Prod.mk.inj (Option.some.inj same)
  rw [mul_one]
  exact Int.bmod_bmod ..

theorem cInt_twice (n : Int) : cInt (cInt (n * 1024) * 1024) = cInt (n * (1024 * 1024)) := by
  rw [cInt, cInt, Int.bmod_mul_bmod, cInt, mul_assoc]

theorem sizeT_cInt_eq_zero (n : Int) : sizeT (cInt n) = 0 ↔ cInt n = 0 := by
  have low : -2 ^ 31 ≤ cInt n := Int.le_bmod (by decide)
  have high : cInt n < 2 ^ 31 := Int.bmod_lt (by decide)
  unfold sizeT
  omega

def settingsOf : List Int → Option (List Char) → Settings
  | [memorySize, pageSize, fileMax, fileHashTbSize, workerThreads], socketName =>
      ⟨sizeT memorySize, sizeT pageSize, fileMax, sizeT fileHashTbSize, workerThreads, socketName⟩
  | _, socketName => ⟨0, 0, 0, 0, 0, socketName⟩

def nameOfNumbers (front : List Int) : Option (List Int × List (List Char)) → Option (Option Settings)
  | none => some none
  | some (ns, file) => (configGetToken socketNameKey file).map fun (socketName, _) =>
      some (settingsOf (front ++ ns) socketName)

theorem bind_loadNumbers {key : List Char} {factor : Int} {keys : List (List Char × Int)} {front : List Int}
    {file : List (List Char)} {P : Int → Prop} [DecidablePred P] {m : Int → Int}
    (same : ∀ n rest, configGetInt key file = some (n, rest) →
      (P n ↔ cInt (n * factor) = 0) ∧ m n = cInt (n * factor)) :
    ((configGetInt key file).bind fun (n, rest) =>
      if P n then some none
      else (loadNumbers keys rest).bind (nameOfNumbers (front ++ [m n]))) =
    (loadNumbers ((key, factor) :: keys) file).bind (nameOfNumbers front) := by
  rw [loadNumbers]
  cases search : configGetInt key file with
  | none => rfl
  | some pair =>
      obtain ⟨n, rest⟩ := pair
      obtain ⟨zero, number⟩ := same n rest search
      simp only [Option.bind_some, Option.bind_eq_bind, zero, number]
      by_cases none : cInt (n * factor) = 0
      · simp [none, nameOfNumbers]
      · simp only [none, if_false]
        cases loadNumbers keys rest with
        | none => rfl
        | some loaded => cases loaded <;> simp [nameOfNumbers]

theorem configGetAll_eq (text : List Char) : configGetAll (some text) =
    (loadNumbers numberKeys (fgetsAll configLineMax text.length text)).bind (nameOfNumbers []) := by
  have plain {key file n rest} (read : configGetInt key file = some (n, rest)) :
      (n = 0 ↔ cInt (n * 1) = 0) ∧ n = cInt (n * 1) := by
    rw [cInt_configGetInt read]
    exact ⟨Iff.rfl, rfl⟩
  have large {key file n rest} (read : configGetInt key file = some (n, rest)) :
      (sizeT n = 0 ↔ cInt (n * 1) = 0) ∧ n = cInt (n * 1) := by
    have zero := sizeT_cInt_eq_zero (n * 1)
    rw [cInt_configGetInt read] at zero ⊢
    exact ⟨zero, rfl⟩
  have bound {key : List Char} {file : List (List Char)}
      {f g : Int × List (List Char) → Option (Option Settings)}
      (onward : ∀ n rest, f (n, rest) = g (n, rest)) :
      (configGetInt key file).bind f = (configGetInt key file).bind g :=
    congrArg _ (funext fun pair => onward pair.1 pair.2)
  have twice (n : Int) : (sizeT (cInt (cInt (n * 1024) * 1024)) = 0 ↔ cInt (n * (1024 * 1024)) = 0) ∧
      cInt (cInt (n * 1024) * 1024) = cInt (n * (1024 * 1024)) := by
    rw [cInt_twice]
    exact ⟨sizeT_cInt_eq_zero _, rfl⟩
  rw [configGetAll, numberKeys, ← bind_loadNumbers (fun n _ _ => twice n)]
  refine bound fun n file => ite_congr rfl (fun _ => rfl) fun _ => ?_
  rw [← bind_loadNumbers (fun n _ _ => ⟨sizeT_cInt_eq_zero _, rfl⟩)]
  refine bound fun n file => ite_congr rfl (fun _ => rfl) fun _ => ?_
  rw [← bind_loadNumbers (fun n _ read => plain read)]
  refine bound fun n file => ite_congr rfl (fun _ => rfl) fun _ => ?_
  rw [← bind_loadNumbers (fun n _ read => large read)]
  refine bound fun n file => ite_congr rfl (fun _ => rfl) fun _ => ?_
  rw [← bind_loadNumbers (fun n _ read => plain read)]
  refine bound fun n file => ite_congr rfl (fun _ => rfl) fun _ => ?_
  show (configGetToken socketNameKey file).bind _ = (configGetToken socketNameKey file).map _
  cases configGetToken socketNameKey file <;> rfl

/-! ## Whole files -/

def configKeys : List (List Char) := numberKeys.map Prod.fst ++ [socketNameKey]

theorem short_numberKeys : ∀ key ∈ numberKeys, key.1.length < configLineMax ∧ 0 < key.2 := by
  decide

section
variable {text : List Char} {settings : Settings}

def Settings.numbers (settings : Settings) : List Int :=
  [settings.serverMemorySize, settings.pageSize, settings.fileMax, settings.fileHashTbSize,
    settings.workerThreadsN]

namespace Loaded
variable (loaded : Loaded text settings)
include loaded

theorem pieces : fgetsAll configLineMax text.length text = linesOf text :=
  fgetsAll_eq le_rfl loaded.short

theorem numbered : NumberedAs (linesOf text) numberKeys settings.numbers :=
  .cons loaded.memorySize.2 (.cons loaded.pageSize.2 (.cons loaded.fileMax.2
    (.cons loaded.fileHashTbSize.2 (.cons loaded.workerThreads.2 .nil))))

theorem settingsOf_numbers : settingsOf settings.numbers settings.socketName = settings := by
  have small {key : List Char} {factor : Int} {n : Nat} (numbered : Numbered (linesOf text) key factor n) :
      sizeT n = n := by
    obtain ⟨⟨line, mem, value, entry⟩, all⟩ := numbered
    obtain ⟨_, _, bound, same⟩ := all line mem value entry
    exact sizeT_of_small (by omega)
  rw [Settings.numbers, settingsOf, small loaded.memorySize, small loaded.pageSize,
    small loaded.fileHashTbSize]

/-- The settings of a file are loaded exactly when the keys are in order. -/
theorem configGetAll_iff :
    configGetAll (some text) = some (some settings) ↔ InOrder configKeys (linesOf text) := by
  have short := loaded.short
  have socketShort : socketNameKey.length < configLineMax := by decide
  obtain ⟨name, set, named⟩ := loaded.socketName
  rw [configGetAll_eq, loaded.pieces]
  constructor
  · intro ran
    obtain ⟨result, numbers, last⟩ := Option.bind_eq_some_iff.mp ran
    obtain ⟨rest, rfl, sub, ordered⟩ :=
      loadNumbers_some short_numberKeys short loaded.wellFormed loaded.numbered numbers
    obtain ⟨⟨socketName, left⟩, search, same⟩ := Option.map_eq_some_iff.mp last
    have kept : settingsOf settings.numbers socketName = settings := Option.some.inj same
    obtain rfl : socketName = some name := (congrArg Settings.socketName kept).trans set
    have here := (configGetToken_iff socketShort fun line mem => short line (sub.subset mem)).mp search
    have wellFormed := fun line (mem : line ∈ rest) => loaded.wellFormed line (sub.subset mem)
    exact (ordered _).mpr ((inOrder_iff wellFormed here []).mpr ⟨[], List.nil_sublist _, .nil⟩)
  · intro ordered
    obtain ⟨result, numbers⟩ :=
      exists_loadNumbers [socketNameKey] short_numberKeys short loaded.wellFormed loaded.numbered ordered
    obtain ⟨rest, rfl, sub, later⟩ :=
      loadNumbers_some short_numberKeys short loaded.wellFormed loaded.numbered numbers
    have wellFormed := fun line (mem : line ∈ rest) => loaded.wellFormed line (sub.subset mem)
    obtain ⟨value, left, found⟩ := exists_foundAt wellFormed ((later _).mp ordered).head
    obtain ⟨line, mem, entry⟩ := found.entry wellFormed
    obtain rfl := named.2 line (sub.subset mem) value entry
    have search := (configGetToken_iff socketShort fun line mem => short line (sub.subset mem)).mpr found
    rw [numbers, Option.bind_some, nameOfNumbers, search, List.nil_append, ← set]
    exact congrArg (fun settings => some (some settings)) loaded.settingsOf_numbers

theorem not_refused : ¬ZeroAt numberKeys (fgetsAll configLineMax text.length text) := by
  intro zero
  rw [loaded.pieces] at zero
  have fits := fun key mem => (short_numberKeys key mem).1
  have ran := (loadNumbers_none numberKeys fits loaded.short).mpr zero
  obtain ⟨rest, absurd, _⟩ :=
    loadNumbers_some short_numberKeys loaded.short loaded.wellFormed loaded.numbered ran
  cases absurd

end Loaded

theorem configGetAll_none :
    configGetAll (some text) = some none ↔
      ZeroAt numberKeys (fgetsAll configLineMax text.length text) := by
  have pieces := @fgetsAll_short text configLineMax text.length (by decide)
  have fits := fun key mem => (short_numberKeys key mem).1
  rw [← loadNumbers_none numberKeys fits pieces, configGetAll_eq]
  cases loadNumbers numberKeys (fgetsAll configLineMax text.length text) with
  | none => simp
  | some result => cases result <;> simp [nameOfNumbers]

end

/-- A file is loaded or refused as it should be exactly when it has its keys in order, or one of its
numbers is `0` as an `int`. -/
theorem loads_iff (text : List Char) :
    Loads text ↔ (∃ settings, Loaded text settings) ∧ InOrder configKeys (linesOf text) ∨
      ZeroAt numberKeys (fgetsAll configLineMax text.length text) := by
  constructor
  · intro loads
    rcases loads with ⟨settings, ran, loaded⟩ | ⟨refused, _⟩
    · exact .inl ⟨⟨settings, loaded⟩, loaded.configGetAll_iff.mp ran⟩
    · exact .inr (configGetAll_none.mp refused)
  · intro met
    rcases met with ⟨⟨settings, loaded⟩, ordered⟩ | zero
    · exact .inl ⟨settings, loaded.configGetAll_iff.mpr ordered, loaded⟩
    · exact .inr ⟨configGetAll_none.mpr zero, fun ⟨settings, loaded⟩ => loaded.not_refused zero⟩

theorem Loads.ne_none {text : List Char} (loads : Loads text) : configGetAll (some text) ≠ none := by
  rcases loads with ⟨settings, ran, _⟩ | ⟨ran, _⟩
  · rw [ran]
    exact Option.some_ne_none _
  · rw [ran]
    exact Option.some_ne_none _

theorem Loads.fileMax_pos {text : List Char} (loads : Loads text) {n : Int}
    (ran : (configGetAll (some text)).map (Option.map Settings.fileMax) = some (some n)) : 0 < n := by
  rcases loads with ⟨settings, ran', loaded⟩ | ⟨ran', _⟩
  · rw [ran'] at ran
    obtain rfl : settings.fileMax = n := Option.some.inj (Option.some.inj ran)
    exact loaded.fileMax.pos one_pos
  · rw [ran'] at ran
    cases ran

def configLine (key value : List Char) : List Char := key ++ '=' :: (value ++ ['\n'])

def fileLines (fileMax : List Char) : List Char :=
  configLine fileMaxKey fileMax ++ configLine fileHashTbSizeKey ['7'] ++ configLine workerThreadsKey ['4'] ++
    configLine socketNameKey ['s']

/-- A number below zero is loaded. A key in front of its predecessor is not found, nor is the value of one
that has none. -/
theorem config_misloaded :
    ¬Loads (configLine memorySizeKey ['2'] ++ configLine pageSizeKey ['2'] ++ fileLines ['-', '5']) ∧
      ¬Loads (configLine pageSizeKey ['2'] ++ configLine memorySizeKey ['2'] ++ fileLines ['5']) ∧
      ¬Loads (configLine memorySizeKey []) := by
  refine ⟨fun loads => ?_, fun loads => loads.ne_none (by decide +kernel),
    fun loads => loads.ne_none (by decide +kernel)⟩
  exact absurd (@Loads.fileMax_pos _ loads (-5) (by decide +kernel)) (by decide)

end FileServer
