import FileServer.Model.ReceivedFiles
import FileServer.Proof.Client.PathBuffers
import FileServer.Proof.Wire.Fields
import FileServer.Proof.Arithmetic
import FileServer.Proof.Sequential.ReadMany

/-!
# One folder for all received files

Files are saved under the last component of a path, so that the second of two with the same component
takes the place of the first.
-/

namespace FileServer

/-! ## The folder -/

def savedIn (dirName : Path) (files : Path → Option (List UInt8)) :
    List (Path × List UInt8) → Path → Option (List UInt8)
  | [] => files
  | (name, contents) :: named =>
      savedIn dirName (Function.update files (fileName dirName name) (some contents)) named

/-- The folder has a file of its own for each of the contents. -/
def SavesAll (dirName : Path) (received : List (List UInt8)) (files : Path → Option (List UInt8)) : Prop :=
  ∃ names : List Path, names.Nodup ∧
    List.Forall₂ (fun contents name => files (fileName dirName name) = some contents) received names

section
variable {dirName name : Path} {files : Path → Option (List UInt8)} {named : List (Path × List UInt8)}

theorem fileName_injective (dirName : Path) : Function.Injective (fileName dirName) := by
  intro a b same
  simpa [fileName] using same

theorem savedIn_other (apart : name ∉ named.map Prod.fst) :
    savedIn dirName files named (fileName dirName name) = files (fileName dirName name) := by
  induction named generalizing files with
  | nil => rfl
  | cons x named ih =>
      simp only [List.map_cons, List.mem_cons, not_or] at apart
      rw [savedIn, ih apart.2, Function.update_of_ne]
      exact fun same => apart.1 (fileName_injective dirName same)

theorem savedIn_mem (distinct : (named.map Prod.fst).Nodup) {contents : List UInt8}
    (mem : (name, contents) ∈ named) :
    savedIn dirName files named (fileName dirName name) = some contents := by
  induction named generalizing files with
  | nil => cases mem
  | cons x named ih =>
      obtain ⟨apart, rest⟩ := List.nodup_cons.mp distinct
      rcases List.mem_cons.mp mem with same | later
      · rw [← same] at apart ⊢
        rw [savedIn, savedIn_other apart, Function.update_self]
      · exact ih rest later

theorem saved_of_mem {received : List (List UInt8)} {names : List Path}
    (saved : List.Forall₂ (fun contents name => files (fileName dirName name) = some contents) received
      names) (mem : name ∈ names) : files (fileName dirName name) ≠ none := by
  induction saved with
  | nil => cases mem
  | cons here _ ih =>
      rcases List.mem_cons.mp mem with rfl | later
      · rw [here]
        exact Option.some_ne_none _
      · exact ih later

/-- Nothing is lost exactly when the names are different. -/
theorem savesAll_iff (named : List (Path × List UInt8))
    (empty : ∀ name, files (fileName dirName name) = none) :
    SavesAll dirName (named.map Prod.snd) (savedIn dirName files named) ↔
      (named.map Prod.fst).Nodup := by
  constructor
  · intro ⟨names, distinct, stored⟩
    have known : names ⊆ named.map Prod.fst := by
      intro name mem
      by_contra apart
      exact saved_of_mem stored mem ((savedIn_other apart).trans (empty name))
    have same : names.length = (named.map Prod.fst).length := by
      rw [← stored.length_eq, List.length_map, List.length_map]
    exact ((List.subperm_of_subset distinct known).perm_of_length_le same.ge).nodup_iff.mp distinct
  · intro distinct
    refine ⟨named.map Prod.fst, distinct, ?_⟩
    rw [List.forall₂_map_left_iff, List.forall₂_map_right_iff, List.forall₂_same]
    exact fun x mem => savedIn_mem distinct mem

end

/-! ## `readNFiles` -/

structure Stored where
  abspath : Path
  contents : List UInt8
deriving DecidableEq, Repr

/-- The name that the file is sent or saved under. -/
def Stored.baseName (file : Stored) : Path := (fileShortenName file.abspath).getD []

/-- What `fileNRead` sends for the file. -/
def Stored.entry (file : Stored) : List UInt8 :=
  intBytes (file.baseName.length + 1) ++ (file.baseName ++ [0]) ++ sizeTBytes file.contents.length ++
    file.contents

/-- A name for a received file that fits the path buffer, and a size of the machine. -/
structure Savable (dirName name : Path) (contents : List UInt8) : Prop where
  plain : 0 ∉ name
  short : dirName.length + 1 + name.length < posixPathMax
  size : contents.length < 2 ^ 64

section
variable {real : Path → Option Path} {dirName name : Path} {files : Path → Option (List UInt8)}
  {dest : Path} {rest contents : List UInt8} {α : Type}

theorem run_host_read {k : List UInt8 → Api α} {field : List UInt8} {n : Nat} (length : field.length = n) :
    (host real dirName).run () (Api.readNB n >>= k) ⟨field ++ rest, files, dest⟩ =
      (host real dirName).run () (k field) ⟨rest, files, dest⟩ := by
  have read : (host real dirName).run () (Api.readNB n) ⟨field ++ rest, files, dest⟩ =
      .ok (field, ⟨rest, files, dest⟩) := by
    show Outcome.ok _ = _
    simp only [List.take_left' length, List.drop_left' length]
  exact Machine.run_bind_of read k

theorem run_host_saveFile {k : Bool → Api α} {input : List UInt8} :
    ∃ dest', (host real dirName).run () (Api.saveFile dirName name contents >>= k) ⟨input, files, dest⟩ =
      (host real dirName).run () (k true)
        ⟨input, Function.update files (fileName dirName name) (some contents), dest'⟩ := by
  refine ⟨fileName dirName name, ?_⟩
  have saved : (host real dirName).run () (Api.saveFile dirName name contents) ⟨input, files, dest⟩ =
      .ok (true, ⟨input, Function.update files (fileName dirName name) (some contents),
        fileName dirName name⟩) := by
    show Outcome.ok (true, (⟨input, Function.update (Function.update files (fileName dirName name)
      (some [])) (fileName dirName name) (some contents), fileName dirName name⟩ : Host)) = _
    rw [Function.update_idem]
  exact Machine.run_bind_of saved k

theorem run_host_intBytes {k : Int → Api α} {v : Int} :
    (host real dirName).run () (Api.readNB 4 >>= fun bytes => Api.given (intOf bytes) >>= k)
        ⟨intBytes v ++ rest, files, dest⟩ =
      (host real dirName).run () (k (cInt v)) ⟨rest, files, dest⟩ := by
  rw [run_host_read (length_intBytes v), intOf_intBytes]
  rfl

theorem run_host_sizeTBytes {k : Nat → Api α} {n : Nat} (small : n < 2 ^ 64) :
    (host real dirName).run () (Api.readNB 8 >>= fun bytes => Api.given (sizeTOf bytes) >>= k)
        ⟨sizeTBytes n ++ rest, files, dest⟩ =
      (host real dirName).run () (k n) ⟨rest, files, dest⟩ := by
  rw [run_host_read (length_sizeTBytes n), sizeTOf_sizeTBytes small]
  rfl

theorem run_host_checkDir (real : Path → Option Path) (dirName : Path) (h : Host) :
    (host real dirName).run () (Api.checkDir (some dirName)) h = .ok (true, h) := by
  show Outcome.ok (decide (dirName = dirName), h) = _
  rw [decide_eq_true rfl]

theorem run_host_entry {file : Stored} (fuel : Nat)
    (savable : Savable dirName file.baseName file.contents) :
    ∃ dest', (host real dirName).run () (Api.readNFilesLoop (some dirName) (fuel + 1))
        ⟨file.entry ++ rest, files, dest⟩ =
      (host real dirName).run () (Api.readNFilesLoop (some dirName) fuel)
        ⟨rest, Function.update files (fileName dirName file.baseName) (some file.contents), dest'⟩ := by
  have fits : file.baseName.length < 256 := by
    have short : dirName.length + 1 + file.baseName.length < 256 := savable.short
    omega
  have size : cInt (file.baseName.length + 1 : Int) = file.baseName.length + 1 :=
    cInt_of_small (by omega) (by omega)
  have notEmpty : intBytes (file.baseName.length + 1) ≠ [] := fun none => by
    have four := length_intBytes (file.baseName.length + 1)
    rw [none] at four
    cases four
  have name : (file.baseName ++ [0]).takeWhile (· ≠ 0) = file.baseName := cString_of_nul savable.plain []
  obtain ⟨dest', saved⟩ := run_host_saveFile
    (k := fun saved => if saved then Api.readNFilesLoop (some dirName) fuel else pure (-1))
  refine ⟨dest', ?_⟩
  rw [Api.readNFilesLoop, Stored.entry]
  simp only [List.append_assoc]
  rw [run_host_read (length_intBytes _), if_neg notEmpty, intOf_intBytes, size]
  have nameLength : (file.baseName ++ [0]).length = (file.baseName.length + 1 : Int).toNat := by
    rw [List.length_append]
    rfl
  rw [Api.given, pure_bind, if_neg (by omega), if_neg (by omega), ← List.append_assoc file.baseName,
    run_host_read nameLength, run_host_sizeTBytes savable.size, run_host_read rfl, name,
    Machine.run_bind_of (run_host_checkDir ..), if_pos rfl]
  exact saved

def savedAs (received : List Stored) : List (Path × List UInt8) :=
  received.map fun file => (file.baseName, file.contents)

theorem run_host_entries {received : List Stored} (fuel : Nat) (enough : received.length < fuel)
    (savable : ∀ file ∈ received, Savable dirName file.baseName file.contents) :
    ∃ dest', (host real dirName).run () (Api.readNFilesLoop (some dirName) fuel)
        ⟨received.flatMap Stored.entry ++ (intBytes 0 ++ rest), files, dest⟩ =
      .ok (0, ⟨rest, savedIn dirName files (savedAs received), dest'⟩) := by
  induction received generalizing files dest fuel with
  | nil =>
      obtain ⟨fuel, rfl⟩ := Nat.exists_eq_add_one_of_ne_zero (Nat.ne_zero_of_lt enough)
      have notEmpty : intBytes 0 ≠ [] := by decide
      refine ⟨dest, ?_⟩
      rw [List.flatMap_nil, List.nil_append, Api.readNFilesLoop, run_host_read (length_intBytes 0),
        if_neg notEmpty, intOf_intBytes]
      rfl
  | cons file received ih =>
      obtain ⟨fuel, rfl⟩ := Nat.exists_eq_add_one_of_ne_zero (Nat.ne_zero_of_lt enough)
      obtain ⟨dest₁, first⟩ := run_host_entry fuel (savable file List.mem_cons_self)
      obtain ⟨dest', others⟩ := ih fuel
        (Nat.lt_of_succ_lt_succ enough) fun other mem => savable other (List.mem_cons_of_mem file mem)
      refine ⟨dest', ?_⟩
      rw [List.flatMap_cons, List.append_assoc, first]
      exact others

theorem run_host_readNFiles {received : List Stored} (n : Int) {fuel : Nat}
    (enough : received.length < fuel)
    (savable : ∀ file ∈ received, Savable dirName file.baseName file.contents) :
    ∃ dest', (host real dirName).run () (Api.readNFiles n (some dirName) fuel)
        ⟨received.flatMap Stored.entry ++ (intBytes 0 ++ rest), files, dest⟩ =
      .ok (0, ⟨rest, savedIn dirName files (savedAs received), dest'⟩) := by
  obtain ⟨dest', looped⟩ := run_host_entries fuel enough savable
  refine ⟨dest', ?_⟩
  rw [Api.readNFiles, Machine.run_bind_of (run_host_checkDir ..), if_neg (by simp)]
  exact looped

/-! ## `readFileList` -/

/-- What becomes of one token of the list: no path to ask for, a file that the server does not give, or
one that it sends; `opened` and `closed` are its answers to the calls before and after. -/
inductive TokenRead where
  | missing (token : Path)
  | refused (token : Path) (opened err : Int)
  | sent (token : Path) (opened closed : Int) (contents : List UInt8)

namespace TokenRead

def token : TokenRead → Path
  | missing token | refused token _ _ | sent token _ _ _ => token

def answers : TokenRead → List UInt8
  | missing _ => []
  | refused _ opened err => intBytes opened ++ intBytes err
  | sent _ opened closed contents =>
      intBytes opened ++ intBytes 0 ++ sizeTBytes contents.length ++ contents ++ intBytes closed

/-- The name under which a file is saved, and what it holds. -/
def saved : TokenRead → Option (Path × List UInt8)
  | sent token _ _ contents => some ((fileShortenName token).getD [], contents)
  | _ => none

end TokenRead

def Asks (real : Path → Option Path) (token : Path) : Prop :=
  ∃ abspath, real token = some abspath ∧ abspath.length + 1 < posixPathMax

/-- The turn is possible on a client where `realpath` is `real`. -/
def TokenRead.Possible (real : Path → Option Path) (dirName : Path) : TokenRead → Prop
  | missing token => ¬Asks real token
  | refused token _ err => Asks real token ∧ cInt err ≠ 0
  | sent token _ _ contents => Asks real token ∧
      ∃ short, fileShortenName token = some short ∧ Savable dirName short contents

variable {h : Host} {token : Path} {pid : Pid}

theorem run_host_sendToSocket {k : Unit → Api α} {buff : List UInt8} {len : Int} (positive : 0 ≤ cInt len) :
    (host real dirName).run () (Api.sendToSocket buff len >>= k) h =
      (host real dirName).run () (k ()) h := by
  rw [Api.sendToSocket, if_neg (Int.not_lt.mpr positive)]
  rfl

theorem run_host_setFileData (h : Host) (dirName : Path) (asks : Asks real token) :
    ∃ data : Api.FileData, 0 ≤ cInt data.pathLen ∧
      (host real dirName).run () (Api.setFileData token false) h = .ok (some data, h) := by
  obtain ⟨abspath, found, short⟩ := asks
  have asked : (host real dirName).run () (Api.ask (.realpath token)) h = .ok (some abspath, h) :=
    congrArg (fun found => Outcome.ok (found, h)) found
  have fits : abspath.length + 1 < 256 := short
  have whole : min abspath.length posixPathMax = abspath.length := Nat.min_eq_left (by
    show abspath.length ≤ 256
    omega)
  refine ⟨⟨abspath, abspath.length + 1, 0⟩, ?_, ?_⟩
  · show 0 ≤ cInt (abspath.length + 1)
    rw [cInt_of_small (by omega) (by omega)]
    omega
  · rw [Api.setFileData, Machine.run_bind_of asked]
    dsimp only
    rw [whole, if_neg (Nat.not_le.mpr short)]
    rfl

theorem run_host_setFileData_none (h : Host) (dirName : Path) (missing : ¬Asks real token) :
    (host real dirName).run () (Api.setFileData token false) h = .ok (none, h) := by
  rw [Api.setFileData]
  cases found : real token with
  | none =>
      have asked : (host real dirName).run () (Api.ask (.realpath token)) h = .ok (none, h) :=
        congrArg (fun found => Outcome.ok (found, h)) found
      rw [Machine.run_bind_of asked]
      rfl
  | some abspath =>
      have asked : (host real dirName).run () (Api.ask (.realpath token)) h = .ok (some abspath, h) :=
        congrArg (fun found => Outcome.ok (found, h)) found
      have long : posixPathMax ≤ min abspath.length posixPathMax + 1 := by
        by_contra short
        exact missing ⟨abspath, found, by omega⟩
      rw [Machine.run_bind_of asked]
      dsimp only
      rw [if_pos long]
      rfl

theorem run_host_sendMetadata {k : Unit → Api α} {func : Int} {data : Api.FileData}
    (positive : 0 ≤ cInt data.pathLen) :
    (host real dirName).run () (Api.sendMetadata func (some data) >>= k) h =
      (host real dirName).run () (k ()) h := by
  have four : 0 ≤ cInt 4 := by decide
  rw [Api.sendMetadata, LawfulMonad.bind_assoc, run_host_sendToSocket four, LawfulMonad.bind_assoc,
    run_host_sendToSocket four, run_host_sendToSocket positive]

theorem run_host_sendRequest {k : Int → Api α} {func v : Int} (asks : Asks real token) :
    (host real dirName).run () (Api.sendRequest func (some token) >>= k) ⟨intBytes v ++ rest, files, dest⟩ =
      (host real dirName).run () (k (cInt v)) ⟨rest, files, dest⟩ := by
  obtain ⟨data, positive, set⟩ := run_host_setFileData ⟨intBytes v ++ rest, files, dest⟩ dirName asks
  rw [Api.sendRequest, LawfulMonad.bind_assoc, Machine.run_bind_of set]
  dsimp only
  rw [LawfulMonad.bind_assoc, run_host_sendMetadata positive, LawfulMonad.bind_assoc]
  exact run_host_intBytes

theorem run_host_sendRequest_none {k : Int → Api α} {func : Int} (missing : ¬Asks real token) :
    (host real dirName).run () (Api.sendRequest func (some token) >>= k) h =
      (host real dirName).run () (k (-1)) h := by
  rw [Api.sendRequest, LawfulMonad.bind_assoc,
    Machine.run_bind_of (run_host_setFileData_none h dirName missing)]
  rfl

theorem run_host_withPid (pid : Pid) (response : Int) (k : Api α) :
    (host real dirName).run () (Api.withPid pid response >>= fun _ => k) h =
      (host real dirName).run () k h := by
  have four : 0 ≤ cInt 4 := by decide
  unfold Api.withPid
  by_cases failed : response = -1
  · rw [if_neg (by simpa using failed)]
    rfl
  · rw [if_pos failed, LawfulMonad.bind_assoc, run_host_sendToSocket four]
    by_cases positive : 0 < response
    · rw [if_pos positive]
      rfl
    · rw [if_neg positive]
      rfl

theorem run_host_openFile {v : Int} (pid : Pid) (asks : Asks real token) (k : Api α) :
    (host real dirName).run () (Api.openFile pid token 0 >>= fun _ => k)
        ⟨intBytes v ++ rest, files, dest⟩ =
      (host real dirName).run () k ⟨rest, files, dest⟩ := by
  rw [Api.openFile, if_neg (by decide), LawfulMonad.bind_assoc, run_host_sendRequest asks,
    run_host_withPid]

theorem run_host_openFile_none (pid : Pid) (missing : ¬Asks real token) (k : Api α) :
    (host real dirName).run () (Api.openFile pid token 0 >>= fun _ => k) h =
      (host real dirName).run () k h := by
  rw [Api.openFile, if_neg (by decide), LawfulMonad.bind_assoc, run_host_sendRequest_none missing,
    run_host_withPid]

theorem run_host_closeFile {v : Int} (pid : Pid) (asks : Asks real token) (k : Api α) :
    (host real dirName).run () (Api.closeFile pid token >>= fun _ => k)
        ⟨intBytes v ++ rest, files, dest⟩ =
      (host real dirName).run () k ⟨rest, files, dest⟩ := by
  rw [Api.closeFile, LawfulMonad.bind_assoc, run_host_sendRequest asks, run_host_withPid]

theorem run_host_readFile {k : Int × Option (List UInt8) → Api α} {v : Int} (pid : Pid)
    (asks : Asks real token) :
    (host real dirName).run () (Api.readFile pid token >>= k) ⟨intBytes v ++ rest, files, dest⟩ =
      (host real dirName).run () ((if cInt v = 0 then do
          let fileLen ← Api.given (sizeTOf (← Api.readNB 8))
          let outBuff ← Api.readNB fileLen
          return (0, some outBuff)
        else do
          Api.ask (.setErrno (cInt v))
          return (-1, none)) >>= k) ⟨rest, files, dest⟩ := by
  have four : 0 ≤ cInt 4 := by decide
  obtain ⟨data, positive, set⟩ := run_host_setFileData ⟨intBytes v ++ rest, files, dest⟩ dirName asks
  rw [Api.readFile, LawfulMonad.bind_assoc, Machine.run_bind_of set]
  dsimp only
  rw [LawfulMonad.bind_assoc, run_host_sendMetadata positive, LawfulMonad.bind_assoc,
    run_host_sendToSocket four, LawfulMonad.bind_assoc, run_host_read (length_intBytes v),
    intOf_intBytes]
  rfl

theorem run_host_readToken_missing (pid : Pid) (missing : ¬Asks real token) (k : Api α) :
    (host real dirName).run () (Api.readToken pid (some dirName) token >>= fun _ => k) h =
      (host real dirName).run () k h := by
  rw [Api.readToken, LawfulMonad.bind_assoc, run_host_openFile_none pid missing, Api.readFile]
  simp only [LawfulMonad.bind_assoc]
  rw [Machine.run_bind_of (run_host_setFileData_none h dirName missing)]
  rfl

theorem run_host_readToken_refused {opened err : Int} (pid : Pid) (asks : Asks real token)
    (fails : cInt err ≠ 0) (k : Api α) :
    (host real dirName).run () (Api.readToken pid (some dirName) token >>= fun _ => k)
        ⟨intBytes opened ++ (intBytes err ++ rest), files, dest⟩ =
      (host real dirName).run () k ⟨rest, files, dest⟩ := by
  rw [Api.readToken, LawfulMonad.bind_assoc, run_host_openFile pid asks, LawfulMonad.bind_assoc,
    run_host_readFile pid asks, if_neg fails]
  rfl

theorem run_host_readToken_sent {opened closed : Int} {short : Path} (pid : Pid) (asks : Asks real token)
    (shortened : fileShortenName token = some short) (savable : Savable dirName short contents) (k : Api α) :
    ∃ dest', (host real dirName).run () (Api.readToken pid (some dirName) token >>= fun _ => k)
        ⟨intBytes opened ++ (intBytes 0 ++ (sizeTBytes contents.length ++ (contents ++
          (intBytes closed ++ rest)))), files, dest⟩ =
      (host real dirName).run () k
        ⟨rest, Function.update files (fileName dirName short) (some contents), dest'⟩ := by
  have zero : cInt 0 = 0 := by decide
  have folder : Api.fileToFolder token (some dirName) contents = (do
      if ← Api.saveFile dirName short contents then return 0 else return -1) := by
    rw [Api.fileToFolder]
    simp only [shortened]
  obtain ⟨dest', saved⟩ := run_host_saveFile
    (k := fun saved => (if saved then pure 0 else pure (-1) : Api Int) >>= fun _ =>
      Api.closeFile pid token >>= fun _ => k)
  refine ⟨dest', ?_⟩
  rw [Api.readToken, LawfulMonad.bind_assoc, run_host_openFile pid asks, LawfulMonad.bind_assoc,
    run_host_readFile pid asks, if_pos zero]
  simp only [LawfulMonad.bind_assoc, pure_bind]
  rw [run_host_sizeTBytes savable.size, run_host_read rfl, if_pos (by decide), Option.getD_some, folder]
  simp only [LawfulMonad.bind_assoc, pure_bind] at saved ⊢
  rw [saved, if_pos trivial, pure_bind]
  exact run_host_closeFile pid asks k

theorem run_host_readTokens {turns : List TokenRead} (pid : Pid)
    (possible : ∀ turn ∈ turns, turn.Possible real dirName) :
    ∃ dest', (host real dirName).run () (Api.readTokens pid (some dirName) (turns.map TokenRead.token))
        ⟨turns.flatMap TokenRead.answers ++ rest, files, dest⟩ =
      .ok ((), ⟨rest, savedIn dirName files (turns.filterMap TokenRead.saved), dest'⟩) := by
  induction turns generalizing files dest with
  | nil => exact ⟨dest, rfl⟩
  | cons turn turns ih =>
      have here := possible turn List.mem_cons_self
      have later : ∀ turn ∈ turns, turn.Possible real dirName := fun other mem =>
        possible other (List.mem_cons_of_mem turn mem)
      rw [List.map_cons, List.flatMap_cons, List.append_assoc, Api.readTokens]
      cases turn with
      | missing token =>
          obtain ⟨dest', others⟩ := ih later
          exact ⟨dest', (run_host_readToken_missing pid here _).trans others⟩
      | refused token opened err =>
          obtain ⟨dest', others⟩ := ih later
          refine ⟨dest', ?_⟩
          rw [TokenRead.answers, List.append_assoc]
          exact (run_host_readToken_refused pid here.1 here.2 _).trans others
      | sent token opened closed contents =>
          obtain ⟨asks, short, shortened, savable⟩ := here
          obtain ⟨dest₁, first⟩ := run_host_readToken_sent pid asks
            shortened savable (Api.readTokens pid (some dirName) (turns.map TokenRead.token))
          obtain ⟨dest', others⟩ := ih later
          have named : (TokenRead.sent token opened closed contents).saved = some (short, contents) := by
            rw [TokenRead.saved, shortened]
            rfl
          refine ⟨dest', ?_⟩
          rw [TokenRead.answers, List.filterMap_cons_some named]
          simp only [List.append_assoc]
          exact first.trans others

theorem run_host_readFileList {turns : List TokenRead} {string : Path} {delim : UInt8} (pid : Pid)
    (tokens : Api.tokensOf string delim = turns.map TokenRead.token)
    (possible : ∀ turn ∈ turns, turn.Possible real dirName) :
    ∃ dest', (host real dirName).run () (Api.readFileList pid string (some dirName) delim)
        ⟨turns.flatMap TokenRead.answers ++ rest, files, dest⟩ =
      .ok (0, ⟨rest, savedIn dirName files (turns.filterMap TokenRead.saved), dest'⟩) := by
  obtain ⟨dest', looped⟩ := run_host_readTokens pid possible
  refine ⟨dest', ?_⟩
  rw [Api.readFileList, tokens, Machine.run_bind_of looped]
  rfl

end

/-! ## What a server sends -/

section
variable {W : Type} {cfg : Config} {w : W} {s : Server W} {σ : Store} {f : FileId} {fs : List FileId}
  {entry : List Msg} {entries : List (List Msg)}

def Store.Holds (σ : Store) (f : FileId) (stored : Stored) : Prop :=
  ∃ file, σ.files f = some file ∧ stored = ⟨file.abspath, σ.content file⟩

theorem presents_entry (presents : σ.Presents f entry) :
    ∃ stored, σ.Holds f stored ∧ entry.flatMap Msg.sentBytes = stored.entry := by
  obtain ⟨file, base, chunks, found, shortened, rfl, content, size⟩ := presents
  refine ⟨_, ⟨file, found, rfl⟩, ?_⟩
  have named : (⟨file.abspath, σ.content file⟩ : Stored).baseName = base := by
    rw [Stored.baseName, shortened]
    rfl
  have flat : (chunks.map Msg.bytes).flatMap Msg.sentBytes = chunks.flatten := by
    rw [List.flatMap_map]
    exact List.flatMap_id
  rw [Stored.entry, named]
  simp only [List.flatMap_cons, flat, Msg.sentBytes]
  rw [content, ← size, content]
  simp only [List.append_assoc]

theorem presents_entries (presents : List.Forall₂ σ.Presents fs entries) :
    ∃ received, List.Forall₂ σ.Holds fs received ∧
      entries.flatten.flatMap Msg.sentBytes = received.flatMap Stored.entry := by
  induction presents with
  | nil => exact ⟨[], .nil, rfl⟩
  | cons here _ ih =>
      obtain ⟨stored, holds, bytes⟩ := presents_entry here
      obtain ⟨received, others, rest⟩ := ih
      refine ⟨stored :: received, .cons holds others, ?_⟩
      rw [List.flatten_cons, List.flatMap_append, bytes, rest, List.flatMap_cons]

/-- An answer of `fileNRead` is what `readNFiles` reads. -/
theorem SendsWritten.received {n : Nat} {rand : Nat → Nat} {fd : Nat}
    (sends : SendsWritten cfg w fd n rand s) :
    ∃ s' fs received, ∃ msgs : List Msg, (server W cfg).run w (fileNRead cfg fd n rand) s = .ok ((), s') ∧
      s'.sent = s.sent ++ msgs.map (fd, ·) ∧ List.Forall₂ s.store.Holds fs received ∧
      msgs.flatMap Msg.sentBytes = received.flatMap Stored.entry ++ intBytes 0 := by
  obtain ⟨s', fs, entries, ran, sent, presents, -⟩ := sends
  obtain ⟨received, holds, bytes⟩ := presents_entries presents
  refine ⟨s', fs, received, entries.flatten ++ [.int 0], ran, sent, holds, ?_⟩
  rw [List.flatMap_append, bytes]
  rfl

end

/-! ## What is lost -/

/-- The call returns, and the directory has a file of its own for each of the contents. -/
def KeepsAll (dirName : Path) (received : List (List UInt8)) (outcome : Outcome Fault (Int × Host)) : Prop :=
  ∃ h, outcome = .ok (0, h) ∧ SavesAll dirName received h.files

section
variable {real : Path → Option Path} {dirName : Path} {files : Path → Option (List UInt8)}

theorem readNFiles_kept (empty : ∀ name, files (fileName dirName name) = none) (dest : Path)
    {received : List Stored} (n : Int) {fuel : Nat} (enough : received.length < fuel)
    (savable : ∀ file ∈ received, Savable dirName file.baseName file.contents) :
    KeepsAll dirName (received.map Stored.contents)
        ((host real dirName).run () (Api.readNFiles n (some dirName) fuel)
          ⟨received.flatMap Stored.entry ++ intBytes 0, files, dest⟩) ↔
      (received.map Stored.baseName).Nodup := by
  obtain ⟨dest', ran⟩ := run_host_readNFiles n
    enough savable
  have kept := savesAll_iff (savedAs received) empty
  simp only [savedAs, List.map_map] at kept
  rw [List.append_nil] at ran
  rw [ran]
  simp only [KeepsAll, Outcome.ok.injEq, Prod.mk.injEq, true_and, exists_eq_left']
  exact kept

theorem readFileList_kept (empty : ∀ name, files (fileName dirName name) = none) (dest : Path)
    {turns : List TokenRead} (pid : Pid) {string : Path} (tokens : Api.tokensOf string 44 = turns.map TokenRead.token)
    (possible : ∀ turn ∈ turns, turn.Possible real dirName) :
    KeepsAll dirName ((turns.filterMap TokenRead.saved).map Prod.snd)
        ((host real dirName).run () (Api.readFileList pid string (some dirName) 44)
          ⟨turns.flatMap TokenRead.answers, files, dest⟩) ↔
      ((turns.filterMap TokenRead.saved).map Prod.fst).Nodup := by
  obtain ⟨dest', ran⟩ := run_host_readFileList pid tokens
    possible
  rw [List.append_nil] at ran
  rw [ran]
  simp only [KeepsAll, Outcome.ok.injEq, Prod.mk.injEq, true_and, exists_eq_left']
  exact savesAll_iff _ empty

end

/-- Received files are all saved exactly when the names they are saved under differ. -/
theorem received_kept {real : Path → Option Path} {dirName : Path}
    {files : Path → Option (List UInt8)} (empty : ∀ name, files (fileName dirName name) = none)
    (dest : Path) :
    (∀ (received : List Stored) (n : Int) (fuel : Nat), received.length < fuel →
      (∀ file ∈ received, Savable dirName file.baseName file.contents) →
      (KeepsAll dirName (received.map Stored.contents)
          ((host real dirName).run () (Api.readNFiles n (some dirName) fuel)
            ⟨received.flatMap Stored.entry ++ intBytes 0, files, dest⟩) ↔
        (received.map Stored.baseName).Nodup)) ∧
    ∀ (turns : List TokenRead) (pid : Pid) (string : Path), Api.tokensOf string 44 = turns.map TokenRead.token →
      (∀ turn ∈ turns, turn.Possible real dirName) →
      (KeepsAll dirName ((turns.filterMap TokenRead.saved).map Prod.snd)
          ((host real dirName).run () (Api.readFileList pid string (some dirName) 44)
            ⟨turns.flatMap TokenRead.answers, files, dest⟩) ↔
        ((turns.filterMap TokenRead.saved).map Prod.fst).Nodup) :=
  ⟨fun _ n _ enough savable => readNFiles_kept empty dest n enough savable,
    fun _ pid _ tokens possible => readFileList_kept empty dest pid tokens possible⟩

/-- `/a/x` and `/b/x`, of one byte each. -/
def twins : List Stored := [⟨[47, 97, 47, 120], [1]⟩, ⟨[47, 98, 47, 120], [2]⟩]

/-- Both are saved as `d/x`. -/
theorem twins_lost :
    (twins.map Stored.abspath).Nodup ∧
      ¬KeepsAll [100] (twins.map Stored.contents)
        ((host some [100]).run () (Api.readNFiles 0 (some [100]) 3)
          ⟨twins.flatMap Stored.entry ++ intBytes 0, fun _ => none, []⟩) := by
  have savable : ∀ file ∈ twins, Savable [100] file.baseName file.contents := by
    intro file mem
    rcases List.mem_cons.mp mem with rfl | mem
    · exact ⟨by decide, by decide, by decide⟩
    · rcases List.mem_cons.mp mem with rfl | mem
      · exact ⟨by decide, by decide, by decide⟩
      · cases mem
  refine ⟨by decide, ?_⟩
  rw [readNFiles_kept (fun _ => rfl) [] 0 (by decide) savable]
  decide

/-- `/a/x` and `/b/y`, of one byte each. -/
def unlike : List Stored := [⟨[47, 97, 47, 120], [1]⟩, ⟨[47, 98, 47, 121], [2]⟩]

/-- `a/x`, a file that the server does not have, and `b/y`. -/
def unlikeTurns : List TokenRead :=
  [.sent [97, 47, 120] 0 0 [1], .refused [99] ENOENT ENOENT, .sent [98, 47, 121] 0 0 [2]]

theorem received_kept_example :
    KeepsAll [100] [[1], [2]] ((host (fun path => some (47 :: path)) [100]).run ()
      (Api.readNFiles 0 (some [100]) 3) ⟨unlike.flatMap Stored.entry ++ intBytes 0, fun _ => none, []⟩) ∧
    KeepsAll [100] [[1], [2]] ((host (fun path => some (47 :: path)) [100]).run ()
      (Api.readFileList 7 [97, 47, 120, 44, 99, 44, 98, 47, 121] (some [100]) 44)
      ⟨unlikeTurns.flatMap TokenRead.answers, fun _ => none, []⟩) := by
  have asks {path : Path} (short : path.length < 254) : Asks (fun path => some (47 :: path)) path := by
    refine ⟨_, rfl, ?_⟩
    show path.length + 1 + 1 < 256
    omega
  have savable : ∀ file ∈ unlike, Savable [100] file.baseName file.contents := by
    simp only [unlike, List.forall_mem_cons]
    exact ⟨⟨by decide, by decide, by decide⟩, ⟨by decide, by decide, by decide⟩, nofun⟩
  have possible : ∀ turn ∈ unlikeTurns, turn.Possible (fun path => some (47 :: path)) [100] := by
    simp only [unlikeTurns, List.forall_mem_cons]
    exact ⟨⟨asks (by decide), [120], by decide, by decide, by decide, by decide⟩, ⟨asks (by decide), by decide⟩,
      ⟨asks (by decide), [121], by decide, by decide, by decide, by decide⟩, nofun⟩
  obtain ⟨many, listed⟩ :=
    @received_kept (fun path => some (47 :: path)) [100] (fun _ => none) (fun _ => rfl) []
  exact ⟨(many unlike 0 3 (by decide) savable).mpr (by decide),
    (listed unlikeTurns 7 [97, 47, 120, 44, 99, 44, 98, 47, 121] (by decide) possible).mpr (by decide)⟩

end FileServer
