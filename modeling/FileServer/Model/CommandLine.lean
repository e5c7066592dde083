import FileServer.Decimal

/-!
# The command line of the client

The second loop of `main` in `client.c`, with the functions that look at its parameters. Of the commands
themselves only the call is kept.
-/

namespace FileServer

abbrev Arg := List Char

/-- The end of a string is a NUL. -/
def Arg.at (arg : Arg) (j : Nat) : Char := arg.getD j (Char.ofNat 0)

/-- `argv[i]`, which is read only below `argc`. -/
def param (argv : List Arg) (i : Nat) : Arg := argv.getD i []

def validFileParam (argv : List Arg) (i : Nat) : Bool :=
  i < argv.length ∧ (param argv i).at 0 ≠ '-'

def validNumParam (argv : List Arg) (i : Nat) : Int :=
  if i < argv.length ∧ (param argv i).at 0 = 'n' ∧ (param argv i).at 1 = '=' then
    atoi ((param argv i).drop 2)
  else -1

def validOpParam (argv : List Arg) (i : Nat) (c : Char) : Bool :=
  i < argv.length ∧ (param argv i).at 0 = '-' ∧ (param argv i).at 1 = c

structure Timespec where
  sec : Int
  nsec : Int
deriving DecidableEq, Repr

inductive CommandCall where
  | readFileList (list : Arg) (dirName : Option Arg)
  | readNFiles (n : Int) (dirName : Option Arg)
  | writeFileList (list : Arg)
  | sendFilesDirectory (dirName : Arg) (n : Int)
  | removeFileList (list : Arg)
deriving DecidableEq, Repr

/-- The `switch` at the argument `i`: where `i` is afterwards, the call, and the delay of requests. -/
def runSwitch (checkDir : Arg → Bool) (argv : List Arg) (i : Nat) (requestDelay : Timespec) :
    Nat × Option CommandCall × Timespec :=
  match (param argv i).at 1 with
  | 'r' =>
      if validFileParam argv (i + 1) then
        if validOpParam argv (i + 2) 'd' then
          if validFileParam argv (i + 3) then
            let call := if checkDir (param argv (i + 3)) then
                some (.readFileList (param argv (i + 1)) (some (param argv (i + 3))))
              else none
            (i + 3, call, requestDelay)
          else (i + 2, none, requestDelay)
        else (i + 1, some (.readFileList (param argv (i + 1)) none), requestDelay)
      else (i, none, requestDelay)
  | 'R' =>
      let passed := validNumParam argv (i + 1)
      let n := if passed = -1 then 0 else passed
      let i := if passed = -1 then i else i + 1
      if validOpParam argv (i + 1) 'd' then
        if validFileParam argv (i + 2) ∧ checkDir (param argv (i + 2)) then
          (i + 2, some (.readNFiles n (some (param argv (i + 2)))), requestDelay)
        else (i + 1, none, requestDelay)
      else (i, some (.readNFiles n none), requestDelay)
  | 'W' =>
      if validFileParam argv (i + 1) then
        (i + 1, some (.writeFileList (param argv (i + 1))), requestDelay)
      else (i, none, requestDelay)
  | 'w' =>
      let passed := validNumParam argv (i + 1)
      let i := if passed ≠ -1 then i + 1 else i
      let n := if passed = 0 then -1 else passed
      if validFileParam argv (i + 1) then
        (i + 1, some (.sendFilesDirectory (param argv (i + 1)) n), requestDelay)
      else (i, none, requestDelay)
  | 'c' =>
      if validFileParam argv (i + 1) then
        (i + 1, some (.removeFileList (param argv (i + 1))), requestDelay)
      else (i, none, requestDelay)
  | 't' =>
      if validFileParam argv (i + 1) then
        let timeAdd := atoi (param argv (i + 1))
        (i + 1, none, ⟨timeAdd.tdiv 1000, timeAdd.tmod 1000 * 1000 * 1000⟩)
      else (i, none, requestDelay)
  | _ => (i, none, requestDelay)

/-- One turn of the loop: an argument that is passed over, or those that a command takes, its call, and
how long the client sleeps after it. -/
inductive ArgTurn where
  | passed (arg : Arg)
  | took (args : List Arg) (call : Option CommandCall) (slept : Timespec)
deriving DecidableEq, Repr

def commandLoop (checkDir : Arg → Bool) (argv : List Arg) : (fuel i : Nat) → Timespec → List ArgTurn
  | 0, _, _ => []
  | fuel + 1, i, requestDelay =>
      if i < argv.length then
        if (param argv i).at 0 = '-' then
          let (last, call, requestDelay) := runSwitch checkDir argv i requestDelay
          .took ((argv.drop i).take (last + 1 - i)) call requestDelay ::
            commandLoop checkDir argv fuel (last + 1) requestDelay
        else .passed (param argv i) :: commandLoop checkDir argv fuel (i + 1) requestDelay
      else []

/-- The second loop of `main`, where each turn takes an argument or more. -/
def secondLoop (checkDir : Arg → Bool) (argv : List Arg) : List ArgTurn :=
  commandLoop checkDir argv argv.length 1 ⟨0, 0⟩

/-! ## What is documented -/

/-- A name does not start with `-`. -/
structure Name where
  chars : Arg
  notFlag : chars.at 0 ≠ '-'

structure Number where
  digits : List Char
  nonempty : digits ≠ []
  decimal : ∀ c ∈ digits, c.isDigit

namespace Number

def value (n : Number) : Nat := digitsValue n.digits
/-- The parameter `n=k`. -/
def param (n : Number) : Arg := 'n' :: '=' :: n.digits

end Number

/-- The commands that `printHelp` prints. -/
inductive Command where
  | f (filename : Name)
  | p
  | w (dirname : Name) (n : Option Number)
  | W (list : Name)
  | r (list : Name) (d : Option Name)
  | R (n : Option Number) (d : Option Name)
  | c (list : Name)
  | t (n : Number)

namespace Command

def dArgs : Option Name → List Arg
  | none => []
  | some dirname => [['-', 'd'], dirname.chars]

def args : Command → List Arg
  | f filename => [['-', 'f'], filename.chars]
  | p => [['-', 'p']]
  | w dirname n => ['-', 'w'] :: dirname.chars :: (n.map Number.param).toList
  | W list => [['-', 'W'], list.chars]
  | r list d => ['-', 'r'] :: list.chars :: dArgs d
  | R n d => ['-', 'R'] :: (n.map Number.param).toList ++ dArgs d
  | c list => [['-', 'c'], list.chars]
  | t n => [['-', 't'], n.digits]

/-- The directory in which received files are saved. -/
def saveDir : Command → Option Name
  | r _ d | R _ d => d
  | _ => none

/-- No limit is passed on as `-1` by `-w`, and as `0` by `-R`. -/
def limit : Option Number → Int
  | none => -1
  | some n => if n.value = 0 then -1 else n.value

def call : Command → Option CommandCall
  | w dirname n => some (.sendFilesDirectory dirname.chars (limit n))
  | W list => some (.writeFileList list.chars)
  | r list d => some (.readFileList list.chars (d.map Name.chars))
  | R n d => some (.readNFiles (n.elim 0 fun n => n.value) (d.map Name.chars))
  | c list => some (.removeFileList list.chars)
  | _ => none

def delay : Command → Timespec → Timespec
  | t n, _ => ⟨n.value / 1000, n.value % 1000 * 1000 * 1000⟩
  | _, before => before

/-- The command as it should be performed. The first loop has taken the name after `-f`. -/
def turns (before : Timespec) : Command → List ArgTurn
  | f filename => [.took [['-', 'f']] none before, .passed filename.chars]
  | command => [.took command.args command.call (command.delay before)]

def allTurns : Timespec → List Command → List ArgTurn
  | _, [] => []
  | before, command :: commands => command.turns before ++ allTurns (command.delay before) commands

end Command

end FileServer
