import FileServer.Model.CommandLine

/-!
# Command lines

For which command lines the loop performs the commands that are documented.
-/

namespace FileServer

section
variable {checkDir : Arg → Bool} {front back taken rest : List Arg} {requestDelay : Timespec}

/-! ## Positions -/

@[simp] theorem param_append (i : Nat) : param (front ++ back) (front.length + i) = param back i := by
  rw [param, param, List.getD_eq_getElem?_getD, List.getElem?_append_right (Nat.le_add_right ..),
    Nat.add_sub_cancel_left, List.getD_eq_getElem?_getD]

@[simp] theorem validFileParam_append (i : Nat) :
    validFileParam (front ++ back) (front.length + i) = validFileParam back i := by
  simp [validFileParam]

@[simp] theorem validNumParam_append (i : Nat) :
    validNumParam (front ++ back) (front.length + i) = validNumParam back i := by
  simp [validNumParam]

@[simp] theorem validOpParam_append (i : Nat) (c : Char) :
    validOpParam (front ++ back) (front.length + i) c = validOpParam back i c := by
  simp [validOpParam]

theorem runSwitch_append (i : Nat) :
    runSwitch checkDir (front ++ back) (front.length + i) requestDelay =
      (front.length + (runSwitch checkDir back i requestDelay).1,
        (runSwitch checkDir back i requestDelay).2) := by
  unfold runSwitch
  simp only [param_append, validFileParam_append, validNumParam_append, validOpParam_append, Nat.add_assoc]
  split
  case h_2 | h_4 =>
    by_cases omitted : validNumParam back (i + 1) = -1
    · simp only [omitted, not_true, if_true, if_false, ne_eq, Nat.add_assoc, param_append,
        validFileParam_append, validOpParam_append]
      split_ifs <;> rfl
    · simp only [omitted, not_false_iff, if_true, if_false, ne_eq, Nat.add_assoc, param_append,
        validFileParam_append, validOpParam_append]
      split_ifs <;> rfl
  case h_7 => rfl
  all_goals split_ifs <;> rfl

theorem commandLoop_append (fuel i : Nat) :
    commandLoop checkDir (front ++ back) fuel (front.length + i) requestDelay =
      commandLoop checkDir back fuel i requestDelay := by
  induction fuel generalizing i requestDelay with
  | zero => rfl
  | succ fuel ih =>
      have taken (last : Nat) : ((front ++ back).drop (front.length + i)).take
          (front.length + (last + 1) - (front.length + i)) = (back.drop i).take (last + 1 - i) := by
        rw [List.drop_append, List.drop_eq_nil_of_le (Nat.le_add_right ..), Nat.add_sub_cancel_left,
          List.nil_append, Nat.add_sub_add_left]
      simp only [commandLoop, param_append, runSwitch_append, taken, Nat.add_assoc front.length, ih,
        List.length_append, Nat.add_lt_add_iff_left]

theorem commandLoop_rest (fuel : Nat) :
    commandLoop checkDir (taken ++ rest) fuel taken.length requestDelay =
      commandLoop checkDir rest fuel 0 requestDelay :=
  commandLoop_append fuel 0

/-! ## One turn -/

theorem commandLoop_took {last fuel : Nat} {call : Option CommandCall} {slept : Timespec} {flag : Char}
    (ran : runSwitch checkDir (['-', flag] :: taken ++ rest) 0 requestDelay = (last, call, slept))
    (all : taken.length = last) :
    commandLoop checkDir (['-', flag] :: taken ++ rest) (fuel + 1) 0 requestDelay =
      .took (['-', flag] :: taken) call slept :: commandLoop checkDir rest fuel 0 slept := by
  subst all
  have onward : commandLoop checkDir (['-', flag] :: taken ++ rest) fuel (taken.length + 1) slept = _ :=
    commandLoop_rest fuel
  rw [commandLoop, if_pos (by simp),
    if_pos (show (param (['-', flag] :: taken ++ rest) 0).at 0 = '-' from rfl), ran]
  simpa using onward

theorem commandLoop_passed {arg : Arg} {fuel : Nat} (notFlag : arg.at 0 ≠ '-') :
    commandLoop checkDir (arg :: rest) (fuel + 1) 0 requestDelay =
      .passed arg :: commandLoop checkDir rest fuel 0 requestDelay := by
  have onward : commandLoop checkDir ([arg] ++ rest) fuel 1 requestDelay = _ := commandLoop_rest fuel
  rw [commandLoop, if_pos (by simp), if_neg (show (param (arg :: rest) 0).at 0 ≠ '-' from notFlag)]
  exact congrArg _ onward

/-! ## Parameters -/

@[simp] theorem param_cons_zero (arg : Arg) : param (arg :: rest) 0 = arg := rfl
@[simp] theorem param_cons_succ (arg : Arg) (i : Nat) : param (arg :: rest) (i + 1) = param rest i := rfl

@[simp] theorem validFileParam_cons_succ (arg : Arg) (i : Nat) :
    validFileParam (arg :: rest) (i + 1) = validFileParam rest i := by simp [validFileParam]

@[simp] theorem validNumParam_cons_succ (arg : Arg) (i : Nat) :
    validNumParam (arg :: rest) (i + 1) = validNumParam rest i := by simp [validNumParam]

@[simp] theorem validOpParam_cons_succ (arg : Arg) (i : Nat) (c : Char) :
    validOpParam (arg :: rest) (i + 1) c = validOpParam rest i c := by simp [validOpParam]

@[simp] theorem Name.validFileParam (name : Name) :
    FileServer.validFileParam (name.chars :: rest) 0 = true := by
  simp [FileServer.validFileParam, name.notFlag]

@[simp] theorem Name.validOpParam (name : Name) (c : Char) :
    FileServer.validOpParam (name.chars :: rest) 0 c = false := by
  simp [FileServer.validOpParam, name.notFlag]

@[simp] theorem Number.validNumParam (n : Number) :
    FileServer.validNumParam (n.param :: rest) 0 = atoi n.digits := by
  simp [FileServer.validNumParam, Number.param, Arg.at]

@[simp] theorem Number.validOpParam (n : Number) (c : Char) :
    FileServer.validOpParam (n.param :: rest) 0 c = false := by
  simp [FileServer.validOpParam, Number.param, Arg.at]

theorem Number.validFileParam (n : Number) : FileServer.validFileParam (n.param :: rest) 0 = true :=
  Name.validFileParam ⟨n.param, show 'n' ≠ '-' by decide⟩

theorem Number.digits_notFlag (n : Number) : Arg.at n.digits 0 ≠ '-' := by
  cases digits : n.digits with
  | nil => decide
  | cons c rest =>
      have digit := n.decimal c (by simp [digits])
      intro same
      obtain rfl : c = '-' := same
      cases digit

def Number.digitsName (n : Number) : Name := ⟨n.digits, n.digits_notFlag⟩

@[simp] theorem validOpParam_d : validOpParam (['-', 'd'] :: rest) 0 'd' = true := by
  simp [validOpParam, Arg.at]

@[simp] theorem validNumParam_d : validNumParam (['-', 'd'] :: rest) 0 = -1 := by
  simp [validNumParam, Arg.at]

/-- The next command, if there is one, starts with a flag other than `-d`. -/
def Starts (rest : List Arg) : Prop := ∀ arg ∈ rest.head?, arg.at 0 = '-' ∧ arg.at 1 ≠ 'd'

theorem Starts.notParam (starts : Starts rest) : validFileParam rest 0 = false ∧
    validNumParam rest 0 = -1 ∧ validOpParam rest 0 'd' = false := by
  cases rest with
  | nil => exact ⟨rfl, rfl, rfl⟩
  | cons arg rest =>
      have flag := starts arg rfl
      simp [validFileParam, validNumParam, validOpParam, flag]

/-! ## Commands -/

theorem validNumParam_cons (arg : Arg) : validNumParam (arg :: rest) 0 = validNumParam [arg] 0 := by
  simp [validNumParam]

/-- When the loop performs a command. The names `n=..` are those that it takes for a number. -/
def Command.Understood : Command → Prop
  | .w dirname none => validNumParam [dirname.chars] 0 = -1
  | .w dirname (some n) => dirname.chars = n.param ∧ n.value < 2 ^ 31
  | .R (some n) _ => n.value < 2 ^ 31
  | .t n => n.value < 2 ^ 31
  | _ => True

section
variable {dirname list : Name} {n : Number} {d : Option Name}

theorem Number.atoi_digits (small : n.value < 2 ^ 31) : atoi n.digits = n.value :=
  FileServer.atoi_digits n.decimal small

theorem runSwitch_W : runSwitch checkDir (['-', 'W'] :: list.chars :: rest) 0 requestDelay =
    (1, some (.writeFileList list.chars), requestDelay) := by
  simp [runSwitch, Arg.at]

theorem runSwitch_c : runSwitch checkDir (['-', 'c'] :: list.chars :: rest) 0 requestDelay =
    (1, some (.removeFileList list.chars), requestDelay) := by
  simp [runSwitch, Arg.at]

theorem runSwitch_t : runSwitch checkDir (['-', 't'] :: n.digits :: rest) 0 requestDelay =
    (1, none, ⟨(atoi n.digits).tdiv 1000, (atoi n.digits).tmod 1000 * 1000 * 1000⟩) := by
  have name : validFileParam (n.digits :: rest) 0 = true := n.digitsName.validFileParam
  simp [runSwitch, Arg.at, name]

theorem runSwitch_r (existing : ∀ dirname ∈ d, checkDir dirname.chars = true) (starts : Starts rest) :
    runSwitch checkDir (['-', 'r'] :: list.chars :: (Command.dArgs d ++ rest)) 0 requestDelay =
      ((Command.dArgs d).length + 1, some (.readFileList list.chars (d.map Name.chars)),
        requestDelay) := by
  cases d with
  | none => simp [runSwitch, Arg.at, Command.dArgs, starts.notParam]
  | some dirname => simp [runSwitch, Arg.at, Command.dArgs, existing dirname rfl]

theorem runSwitch_R (existing : ∀ dirname ∈ d, checkDir dirname.chars = true) (starts : Starts rest)
    {k : Option Number} (small : ∀ n ∈ k, n.value < 2 ^ 31) :
    runSwitch checkDir (['-', 'R'] :: ((k.map Number.param).toList ++ (Command.dArgs d ++ rest))) 0
        requestDelay =
      ((k.map Number.param).toList.length + (Command.dArgs d).length,
        some (.readNFiles (k.elim 0 fun n => n.value) (d.map Name.chars)), requestDelay) := by
  cases k with
  | none =>
      cases d with
      | none => simp [runSwitch, Arg.at, Command.dArgs, starts.notParam]
      | some dirname => simp [runSwitch, Arg.at, Command.dArgs, existing dirname rfl]
  | some n =>
      have value := Number.atoi_digits (small n rfl)
      have passed : ¬((n.value : Int) = -1) := by omega
      cases d with
      | none => simp [runSwitch, Arg.at, Command.dArgs, starts.notParam, value, passed]
      | some dirname => simp [runSwitch, Arg.at, Command.dArgs, existing dirname rfl, value, passed]

theorem runSwitch_w_all (notNum : validNumParam [dirname.chars] 0 = -1) :
    runSwitch checkDir (['-', 'w'] :: dirname.chars :: rest) 0 requestDelay =
      (1, some (.sendFilesDirectory dirname.chars (-1)), requestDelay) := by
  simp [runSwitch, Arg.at, validNumParam_cons dirname.chars, notNum]

theorem runSwitch_w_num (num : validNumParam [dirname.chars] 0 ≠ -1) :
    runSwitch checkDir (['-', 'w'] :: dirname.chars :: rest) 0 requestDelay =
      if validFileParam rest 0 then
        (2, some (.sendFilesDirectory (param rest 0)
          (if validNumParam [dirname.chars] 0 = 0 then -1 else validNumParam [dirname.chars] 0)),
          requestDelay)
      else (1, none, requestDelay) := by
  simp [runSwitch, Arg.at, validNumParam_cons dirname.chars, num]

end

namespace Command
variable {before : Timespec} {command : Command}

theorem performed (understood : command.Understood)
    (existing : ∀ dirname ∈ command.saveDir, checkDir dirname.chars = true) (starts : Starts rest)
    (fuel : Nat) :
    commandLoop checkDir (command.args ++ rest) (fuel + (command.turns before).length) 0 before =
      command.turns before ++ commandLoop checkDir rest fuel 0 (command.delay before) := by
  cases command with
  | f filename =>
      have passed := @commandLoop_passed checkDir rest before filename.chars fuel filename.notFlag
      have flag : runSwitch checkDir (['-', 'f'] :: filename.chars :: rest) 0 before = (0, none, before) := by
        simp [runSwitch, Arg.at]
      have took : commandLoop checkDir (['-', 'f'] :: filename.chars :: rest) (fuel + 1 + 1) 0 before = _ :=
        commandLoop_took flag (rfl : ([] : List Arg).length = 0)
      exact took.trans (congrArg _ passed)
  | p =>
      have flag : runSwitch checkDir (['-', 'p'] :: rest) 0 before = (0, none, before) := by
        simp [runSwitch, Arg.at]
      exact commandLoop_took flag (rfl : ([] : List Arg).length = 0)
  | w dirname n =>
      cases n with
      | none => exact commandLoop_took (runSwitch_w_all understood) (rfl : [dirname.chars].length = 1)
      | some n =>
          obtain ⟨same, small⟩ := understood
          have value : validNumParam [dirname.chars] 0 = n.value := by
            rw [same]
            exact n.validNumParam.trans (n.atoi_digits small)
          have ran : runSwitch checkDir (['-', 'w'] :: dirname.chars :: n.param :: rest) 0 before =
              (2, some (.sendFilesDirectory dirname.chars (if (n.value : Int) = 0 then -1 else n.value)),
                before) := by
            rw [runSwitch_w_num (by omega), value, if_pos n.validFileParam, param_cons_zero, same]
          have took := @commandLoop_took checkDir [dirname.chars, n.param] rest before 2 fuel _ _ 'w' ran rfl
          simpa [args, turns, call, limit, delay] using took
  | W list => exact commandLoop_took runSwitch_W (rfl : [list.chars].length = 1)
  | r list d =>
      have took := @commandLoop_took checkDir (list.chars :: dArgs d) rest before _ fuel _ _ 'r'
        (runSwitch_r existing starts) rfl
      exact took
  | R n d =>
      have small : ∀ k ∈ n, k.value < 2 ^ 31 := by
        cases n with
        | none => simp
        | some n => simpa [Understood] using understood
      have existing' : ∀ dirname ∈ d, checkDir dirname.chars = true := existing
      have took := @commandLoop_took checkDir ((n.map Number.param).toList ++ dArgs d) rest before _ fuel _ _
        'R' (by simpa using runSwitch_R existing' starts small) (by simp)
      simpa [args, turns, call, delay] using took
  | c list => exact commandLoop_took runSwitch_c (rfl : [list.chars].length = 1)
  | t n =>
      have value := n.atoi_digits understood
      have ran : runSwitch checkDir (['-', 't'] :: n.digits :: rest) 0 before = _ := runSwitch_t
      rw [value] at ran
      exact commandLoop_took ran (rfl : [n.digits].length = 1)

theorem not_performed_of_took {flag : Char} (taken others : List Arg) {last fuel : Nat}
    {call' : Option CommandCall} {slept : Timespec}
    (shape : command.args ++ rest = ['-', flag] :: taken ++ others)
    (ran : runSwitch checkDir (['-', flag] :: taken ++ others) 0 before = (last, call', slept))
    (all : taken.length = last) (single : command.turns before = [.took command.args command.call
      (command.delay before)])
    (differs : ['-', flag] :: taken = command.args → call' = command.call → slept ≠ command.delay before)
    (tail : List ArgTurn) :
    commandLoop checkDir (command.args ++ rest) (fuel + 1) 0 before ≠ command.turns before ++ tail := by
  rw [shape, commandLoop_took ran all, single]
  intro same
  have head := (List.cons.inj same).1
  simp only [ArgTurn.took.injEq] at head
  exact differs head.1 head.2.1 head.2.2

theorem not_performed (misread : ¬command.Understood)
    (existing : ∀ dirname ∈ command.saveDir, checkDir dirname.chars = true) (starts : Starts rest)
    (fuel : Nat) (tail : List ArgTurn) :
    commandLoop checkDir (command.args ++ rest) (fuel + 1) 0 before ≠ command.turns before ++ tail := by
  cases command with
  | f | p | W | r | c => exact absurd trivial misread
  | w dirname n =>
      cases n with
      | none =>
          have ran : runSwitch checkDir (['-', 'w'] :: dirname.chars :: rest) 0 before =
              (1, none, before) := by
            rw [runSwitch_w_num misread, if_neg (by simp [starts.notParam])]
          exact not_performed_of_took [dirname.chars] _ rfl ran rfl rfl (by simp [call]) tail
      | some n =>
          by_cases notNum : validNumParam [dirname.chars] 0 = -1
          · have ran := @runSwitch_w_all checkDir (n.param :: rest) before dirname notNum
            exact not_performed_of_took [dirname.chars] _ rfl ran rfl rfl (by simp [args]) tail
          · have ran := @runSwitch_w_num checkDir (n.param :: rest) before dirname notNum
            rw [if_pos n.validFileParam] at ran
            refine not_performed_of_took [dirname.chars, n.param] _ rfl ran rfl rfl ?_ tail
            intro _ same
            simp only [call, Option.some.injEq, CommandCall.sendFilesDirectory.injEq, param_cons_zero] at same
            obtain ⟨named, limited⟩ := same
            have large : 2 ^ 31 ≤ n.value := not_lt.mp fun small => misread ⟨named.symm, small⟩
            have high := atoi_lt n.digits
            have value : validNumParam [dirname.chars] 0 = atoi n.digits := by
              rw [← named]
              exact n.validNumParam
            rw [value, limit, if_neg (by omega)] at limited
            split at limited <;> omega
  | R n d =>
      cases n with
      | none => exact absurd trivial misread
      | some n =>
          have large : 2 ^ 31 ≤ n.value := not_lt.mp misread
          have differs := atoi_digits_ne large
          by_cases omitted : atoi n.digits = -1
          · have ran : runSwitch checkDir (['-', 'R'] :: n.param :: (dArgs d ++ rest)) 0 before =
                (0, some (.readNFiles 0 none), before) := by
              simp [runSwitch, Arg.at, omitted]
            exact not_performed_of_took [] _ (by simp [args]) ran rfl rfl (by simp [args]) tail
          · have ran : runSwitch checkDir (['-', 'R'] :: n.param :: (dArgs d ++ rest)) 0 before =
                ((dArgs d).length + 1, some (.readNFiles (atoi n.digits) (d.map Name.chars)), before) := by
              cases d with
              | none => simp [runSwitch, Arg.at, dArgs, starts.notParam, omitted]
              | some dirname => simp [runSwitch, Arg.at, dArgs, existing dirname rfl, omitted]
            refine not_performed_of_took (n.param :: dArgs d) rest (by simp [args]) ran rfl rfl ?_ tail
            intro _ same
            simp only [call, Option.some.injEq, CommandCall.readNFiles.injEq] at same
            exact absurd same.1 differs
  | t n =>
      have large : 2 ^ 31 ≤ n.value := not_lt.mp misread
      refine not_performed_of_took [n.digits] _ rfl runSwitch_t rfl rfl ?_ tail
      intro _ _ same
      have differs := atoi_digits_ne large
      simp only [delay, Timespec.mk.injEq] at same
      have left := Int.mul_tdiv_add_tmod (atoi n.digits) 1000
      have right := Int.mul_ediv_add_emod n.value 1000
      exact differs (by show atoi n.digits = n.value; omega)

/-! ## Command lines -/

theorem starts_args (commands : List Command) : Starts (commands.flatMap args) := by
  cases commands with
  | nil => exact fun arg mem => by cases mem
  | cons command commands =>
      cases command <;> simp [Starts, args, Arg.at]

theorem length_turns (command : Command) (before : Timespec) :
    1 ≤ (command.turns before).length ∧ (command.turns before).length ≤ command.args.length := by
  cases command <;> simp [turns, args]

/-- The loop performs a command line exactly when it understands every command of it. -/
theorem commandLoop_iff {commands : List Command}
    (existing : ∀ command ∈ commands, ∀ dirname ∈ command.saveDir, checkDir dirname.chars = true)
    (fuel : Nat) (enough : (commands.flatMap args).length ≤ fuel) :
    commandLoop checkDir (commands.flatMap args) fuel 0 before = allTurns before commands ↔
      ∀ command ∈ commands, command.Understood := by
  induction commands generalizing fuel before with
  | nil =>
      have nothing : commandLoop checkDir [] fuel 0 before = [] := by
        cases fuel with
        | zero => rfl
        | succ fuel => rfl
      simpa [allTurns] using nothing
  | cons command commands ih =>
      have starts := starts_args commands
      have here := existing command List.mem_cons_self
      have short := length_turns command before
      rw [List.flatMap_cons, List.length_append] at enough
      rw [List.flatMap_cons, allTurns, List.forall_mem_cons]
      by_cases understood : command.Understood
      · have turnsFit : (command.turns before).length ≤ fuel := by omega
        obtain ⟨fuel, rfl⟩ := Nat.exists_eq_add_of_le' turnsFit
        rw [performed understood here starts, List.append_cancel_left_eq,
          ih (fun c mem => existing c (List.mem_cons_of_mem _ mem)) fuel (by omega)]
        exact (and_iff_right understood).symm
      · obtain ⟨fuel, rfl⟩ := Nat.exists_eq_add_of_le' (show 1 ≤ fuel by omega)
        exact iff_of_false (not_performed understood here starts fuel _) fun all => understood all.1

end Command

end

/-- The loop of `main` performs a documented command line as documented exactly when each `-w` comes
without `n=k` and with a name that is no number, and each number is an `int`. -/
theorem secondLoop_iff {checkDir : Arg → Bool} (program : Arg) {commands : List Command}
    (existing : ∀ command ∈ commands, ∀ dirname ∈ command.saveDir, checkDir dirname.chars = true) :
    secondLoop checkDir (program :: commands.flatMap Command.args) =
        Command.allTurns ⟨0, 0⟩ commands ↔
      ∀ command ∈ commands, command.Understood := by
  have onward : commandLoop checkDir ([program] ++ commands.flatMap Command.args) _ 1 ⟨0, 0⟩ = _ :=
    commandLoop_rest ((commands.flatMap Command.args).length + 1)
  show commandLoop _ _ _ _ _ = _ ↔ _
  rw [List.length_cons]
  rw [show commandLoop checkDir (program :: commands.flatMap Command.args) _ 1 ⟨0, 0⟩ = _ from onward]
  exact Command.commandLoop_iff existing _ (Nat.le_succ _)

def socketName : Name := ⟨['s'], by decide⟩
def saveName : Name := ⟨['d'], by decide⟩
def three : Number := ⟨['3'], by decide, List.forall_mem_singleton.mpr rfl⟩

theorem secondLoop_example :
    secondLoop (fun _ => true) (['x'] :: [Command.f socketName, .t three, .R (some three) (some saveName),
        .w saveName none].flatMap Command.args) =
      Command.allTurns ⟨0, 0⟩ [.f socketName, .t three, .R (some three) (some saveName), .w saveName none] := by
  refine (secondLoop_iff ['x'] (fun _ _ _ _ => rfl)).mpr ?_
  have value : three.value < 2 ^ 31 := by decide
  have notNum : validNumParam [saveName.chars] 0 = -1 := by decide
  simpa [Command.Understood, notNum] using value

/-- `-w d n=3` sends all files of the directory, and with a directory `n=3` none is sent. -/
theorem limit_misread :
    secondLoop (fun _ => true)
        (['x'] :: [Command.f socketName, .w saveName (some three)].flatMap Command.args) ≠
      Command.allTurns ⟨0, 0⟩ [.f socketName, .w saveName (some three)] ∧
    secondLoop (fun _ => true)
        (['x'] :: [Command.f socketName, .w ⟨three.param, by decide⟩ none].flatMap Command.args) ≠
      Command.allTurns ⟨0, 0⟩ [.f socketName, .w ⟨three.param, by decide⟩ none] := by
  decide

end FileServer
