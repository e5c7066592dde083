import FileServer.Model.PathBuffers
import FileServer.Proof.Client.Upload

/-!
# Paths in the client's buffers

A path of up to 255 bytes is put together right in every place, and a longer one is written past the
end of its array.
-/

namespace FileServer

/-- Only the array was written to; what is then handed on ends with a NUL and is `path`. -/
def Composes (result : Option (List UInt8)) (path : Path) : Prop :=
  ∃ buffer, result = some buffer ∧ 0 ∈ buffer ∧ cString buffer = path

def pathIn (path : Path) : List UInt8 :=
  path ++ 0 :: List.replicate (posixPathMax - path.length - 1) 0

/-- No name in the tree has a NUL in it. -/
def Entries.CStrings : Entries → Prop
  | .done => True
  | .file name rest => 0 ∉ name ∧ rest.CStrings
  | .other name rest => 0 ∉ name ∧ rest.CStrings
  | .directory name _ entries rest => 0 ∉ name ∧ entries.CStrings ∧ rest.CStrings

/-- The paths that the loop of `sendFilesDirectory` looks at. -/
def statted (dirName : Path) (n : Int) : Entries → (sent : Int) → List Path
  | .done, _ => []
  | .file name rest, sent =>
      let sent' := if n ≠ -1 then sent + 1 else sent
      fileName dirName name ::
        if n < sent' ∧ n ≠ -1 then [] else statted dirName n rest sent'
  | .other name rest, sent => fileName dirName name :: statted dirName n rest sent
  | .directory name opens entries rest, sent =>
      let entered := undotted name && opens
      let (_, counted) :=
        if undotted name then sendFilesDirectory (fileName dirName name) (n - sent) opens entries
        else ([], 0)
      fileName dirName name ::
        (if entered then statted (fileName dirName name) (n - sent) entries 0 else []) ++
          statted dirName n rest (sent + counted)

section
variable {buffer fresh : List UInt8} {dirName name path : Path} {n sent : Int}

theorem length_fileName (dirName name : Path) :
    (fileName dirName name).length = dirName.length + 1 + name.length := by
  simp only [fileName, List.length_append, List.length_cons]
  omega

theorem plain_fileName (plainDir : 0 ∉ dirName) (plain : 0 ∉ name) : 0 ∉ fileName dirName name := by
  simp [fileName, plainDir, plain, slash]

/-! ## One path -/

theorem strncpy_dir (length : buffer.length = posixPathMax) :
    strncpy buffer dirName posixPathMax =
      if dirName.length < posixPathMax then some (pathIn dirName)
      else some (dirName.take posixPathMax) := by
  rw [← length]
  by_cases short : dirName.length < buffer.length
  · rw [strncpy_short short, if_pos short, pathIn, ← length]
  · rw [strncpy_long (not_lt.mp short), if_neg short]

theorem strncat_path {tail : Path} {bound : Nat} (plain : 0 ∉ path) (short : path.length < posixPathMax)
    (large : posixPathMax - path.length ≤ bound) :
    strncat (pathIn path) tail bound =
      if (path ++ tail).length < posixPathMax then some (pathIn (path ++ tail)) else none := by
  have room : (List.replicate (posixPathMax - path.length - 1) (0 : UInt8)).length =
      posixPathMax - path.length - 1 := List.length_replicate
  unfold pathIn
  rw [strncat_of_nul plain (by rw [room]; omega), room]
  by_cases fits : (path ++ tail).length < posixPathMax
  · have left : posixPathMax - path.length - 1 - tail.length =
        posixPathMax - (path ++ tail).length - 1 := by
      rw [List.length_append]
      omega
    rw [if_pos fits, if_pos (by rw [List.length_append] at fits; omega), List.drop_replicate, left]
  · rw [if_neg fits, if_neg (by rw [List.length_append] at fits; omega)]

theorem strlen_path (plain : 0 ∉ path) : strlen (pathIn path) = some path.length :=
  strlen_of_nul plain _

theorem readNFilesDest_eq (length : buffer.length = posixPathMax) (plainDir : 0 ∉ dirName) :
    readNFilesDest buffer dirName name =
      if (fileName dirName name).length < posixPathMax then some (pathIn (fileName dirName name))
      else none := by
  have size := length_fileName dirName name
  unfold readNFilesDest
  rw [strncpy_dir length]
  by_cases shortDir : dirName.length < posixPathMax
  · rw [if_pos shortDir]
    simp only [Option.bind_eq_bind, Option.bind_some]
    rw [strncat_path plainDir shortDir (Nat.sub_le ..)]
    by_cases shortSlash : (dirName ++ [slash]).length < posixPathMax
    · have plainSlash : 0 ∉ dirName ++ [slash] := by simp [plainDir, slash]
      rw [if_pos shortSlash]
      simp only [Option.bind_some]
      rw [strncat_path plainSlash shortSlash (Nat.sub_le ..)]
      simp [fileName]
    · rw [if_neg shortSlash, if_neg (by simp at shortSlash; omega)]
      rfl
  · have plainCut : 0 ∉ dirName.take posixPathMax := fun mem => plainDir (List.mem_of_mem_take mem)
    rw [if_neg shortDir, if_neg (by omega)]
    simp [strncat_unterminated plainCut]

theorem sendFilesName_eq (length : buffer.length = posixPathMax) (plainDir : 0 ∉ dirName) :
    sendFilesName buffer dirName name = readNFilesDest buffer dirName name := by
  unfold sendFilesName readNFilesDest
  rw [strncpy_dir length]
  by_cases shortDir : dirName.length < posixPathMax
  · rw [if_pos shortDir]
    simp only [Option.bind_eq_bind, Option.bind_some, strlen_path plainDir]
    rw [strncat_path plainDir shortDir le_rfl, strncat_path plainDir shortDir (Nat.sub_le ..)]
    by_cases shortSlash : (dirName ++ [slash]).length < posixPathMax
    · have plainSlash : 0 ∉ dirName ++ [slash] := by simp [plainDir, slash]
      rw [if_pos shortSlash]
      simp only [Option.bind_some, strlen_path plainSlash]
      rw [strncat_path plainSlash shortSlash le_rfl, strncat_path plainSlash shortSlash (Nat.sub_le ..)]
    · rw [if_neg shortSlash]
      rfl
  · have plainCut : 0 ∉ dirName.take posixPathMax := fun mem => plainDir (List.mem_of_mem_take mem)
    rw [if_neg shortDir]
    simp [strncat_unterminated plainCut, strlen, plainCut]

theorem composes_iff (length : buffer.length = posixPathMax) (plainDir : 0 ∉ dirName)
    (plain : 0 ∉ name) :
    Composes (readNFilesDest buffer dirName name) (fileName dirName name) ↔
      (fileName dirName name).length < posixPathMax := by
  rw [readNFilesDest_eq length plainDir]
  by_cases fits : (fileName dirName name).length < posixPathMax
  · rw [if_pos fits]
    exact iff_of_true ⟨_, rfl, by simp [pathIn], cString_of_nul (plain_fileName plainDir plain) _⟩ fits
  · rw [if_neg fits]
    simp [Composes, fits]

/-! ## The walk -/

theorem length_pathIn (short : path.length < posixPathMax) : (pathIn path).length = posixPathMax := by
  simp only [pathIn, List.length_append, List.length_cons, List.length_replicate]
  omega

theorem cString_pathIn (plain : 0 ∉ path) : cString (pathIn path) = path := cString_of_nul plain _

theorem sendFilesName_short (length : buffer.length = posixPathMax) (plainDir : 0 ∉ dirName)
    (short : (fileName dirName name).length < posixPathMax) :
    sendFilesName buffer dirName name = some (pathIn (fileName dirName name)) := by
  rw [sendFilesName_eq length plainDir, readNFilesDest_eq length plainDir, if_pos short]

theorem sendFilesName_long (length : buffer.length = posixPathMax) (plainDir : 0 ∉ dirName)
    (long : ¬(fileName dirName name).length < posixPathMax) : sendFilesName buffer dirName name = none := by
  rw [sendFilesName_eq length plainDir, readNFilesDest_eq length plainDir, if_neg long]

def whenShort (paths : List Path) (walked : Walked) : Option Walked :=
  if ∀ path ∈ paths, path.length < posixPathMax then some walked else none

section
variable {paths : List Path} {walked : Walked}

@[simp] theorem whenShort_nil (walked : Walked) : whenShort [] walked = some walked := by
  simp [whenShort]

theorem whenShort_cons (short : path.length < posixPathMax) :
    whenShort (path :: paths) walked = whenShort paths walked := by
  simp [whenShort, short]

theorem whenShort_long (long : ¬path.length < posixPathMax) : whenShort (path :: paths) walked = none := by
  simp [whenShort, long]

@[simp] theorem whenShort_then (f : Walked → Walked) :
    ((whenShort paths walked).bind fun w => some (f w)) = whenShort paths (f walked) := by
  unfold whenShort
  split <;> rfl

@[simp] theorem whenShort_bind (later : Walked → List Path) (f : Walked → Walked) :
    ((whenShort paths walked).bind fun w => whenShort (later w) (f w)) =
      whenShort (paths ++ later walked) (f walked) := by
  unfold whenShort
  by_cases short : ∀ path ∈ paths, path.length < posixPathMax
  · have split : (∀ path ∈ paths ++ later walked, path.length < posixPathMax) ↔
        ∀ path ∈ later walked, path.length < posixPathMax := by
      constructor
      · exact fun all path mem => all path (List.mem_append_right _ mem)
      · exact fun all path mem => (List.mem_append.mp mem).elim (short path) (all path)
    simp only [if_pos short, Option.bind_some, split]
  · have more : ¬∀ path ∈ paths ++ later walked, path.length < posixPathMax := fun all =>
      short fun path mem => all path (List.mem_append_left _ mem)
    simp only [if_neg short, if_neg more, Option.bind_none]

end

theorem statted_stopped (dirName name : Path) (rest : Entries) (finite : n ≠ -1) (full : n ≤ sent) :
    statted dirName n (.file name rest) sent = [fileName dirName name] := by
  have hit : n < sent + 1 := by omega
  simp [statted, finite, hit]

theorem statted_file (dirName name : Path) (rest : Entries) (room : n ≠ -1 → sent < n) :
    statted dirName n (.file name rest) sent =
      fileName dirName name :: statted dirName n rest (if n ≠ -1 then sent + 1 else sent) := by
  by_cases finite : n ≠ -1
  · have room' : ¬n < sent + 1 := not_lt.mpr (room finite)
    simp [statted, finite, room']
  · simp [statted, finite]

theorem sendLoopIn_eq {entries : Entries} (fresh_length : fresh.length = posixPathMax)
    (length : buffer.length = posixPathMax) (plainDir : 0 ∉ dirName) (plain : entries.CStrings) :
    sendLoopIn fresh dirName n entries sent buffer =
      whenShort (statted dirName n entries sent) ⟨statted dirName n entries sent,
        (sendLoop dirName n entries sent).1, (sendLoop dirName n entries sent).2⟩ := by
  induction entries generalizing dirName n sent buffer with
  | done => simp [sendLoopIn, statted, sendLoop]
  | file name rest ih =>
      by_cases short : (fileName dirName name).length < posixPathMax
      · have composed := sendFilesName_short length plainDir short
        have named := cString_pathIn (plain_fileName plainDir plain.1)
        by_cases room : n ≠ -1 → sent < n
        · have next (sent : Int) := @ih _ _ n sent (length_pathIn short) plainDir plain.2
          have goes : ¬(n < (if n ≠ -1 then sent + 1 else sent) ∧ n ≠ -1) := by
            rintro ⟨past, finite⟩
            rw [if_pos finite] at past
            exact absurd (room finite) (by omega)
          rw [statted_file dirName name rest room, sendLoop_file dirName name rest room,
            whenShort_cons short]
          simp only [sendLoopIn, composed, Option.bind_eq_bind, Option.bind_some, if_neg goes, named, next,
            whenShort_then]
        · have full : n ≠ -1 ∧ n ≤ sent := by simpa using room
          have stops : n < (if n ≠ -1 then sent + 1 else sent) ∧ n ≠ -1 := by
            rw [if_pos full.1]
            exact ⟨by omega, full.1⟩
          rw [statted_stopped dirName name rest full.1 full.2,
            sendLoop_stopped dirName name rest full.1 full.2, whenShort_cons short, whenShort_nil]
          simp only [sendLoopIn, composed, Option.bind_eq_bind, Option.bind_some, if_pos stops, named]
      · simp [sendLoopIn, sendFilesName_long length plainDir short, statted, whenShort_long short]
  | other name rest ih =>
      by_cases short : (fileName dirName name).length < posixPathMax
      · have next := @ih _ _ n sent (length_pathIn short) plainDir plain.2
        have named := cString_pathIn (plain_fileName plainDir plain.1)
        simp only [sendLoopIn, sendFilesName_short length plainDir short, named, next, statted, sendLoop,
          Option.bind_eq_bind, Option.bind_some, whenShort_cons short, whenShort_then]
      · simp [sendLoopIn, sendFilesName_long length plainDir short, statted, whenShort_long short]
  | directory name opens entries rest inner ih =>
      by_cases short : (fileName dirName name).length < posixPathMax
      · have plainName := plain_fileName plainDir plain.1
        have named := cString_pathIn plainName
        have next (sent : Int) := @ih _ _ n sent (length_pathIn short) plainDir plain.2.2
        have below := @inner _ _ (n - sent) 0 fresh_length plainName plain.2.1
        simp only [sendLoopIn, sendFilesName_short length plainDir short, named, next, below, statted,
          sendLoop, sendFilesDirectory, Option.bind_eq_bind, Option.bind_some, List.cons_append,
          whenShort_cons short]
        by_cases seen : undotted name
        · cases opens with
          | true => simp [seen]
          | false => simp [seen]
        · simp [seen]
      · simp [sendLoopIn, sendFilesName_long length plainDir short, statted, whenShort_long short]

/-- The walk writes to its arrays alone, looks at the files of the tree and issues the right ones. -/
def WalksRight (fresh : List UInt8) (dirName : Path) (n : Int) (opens : Bool) (entries : Entries) : Prop :=
  sendFilesDirectoryIn fresh dirName n opens entries =
    some ⟨if opens then statted dirName n entries 0 else [],
      (sendFilesDirectory dirName n opens entries).1, (sendFilesDirectory dirName n opens entries).2⟩

theorem walksRight_iff {entries : Entries} {opens : Bool} (fresh_length : fresh.length = posixPathMax)
    (plainDir : 0 ∉ dirName) (plain : entries.CStrings) :
    WalksRight fresh dirName n opens entries ↔
      (opens → ∀ path ∈ statted dirName n entries 0, path.length < posixPathMax) := by
  unfold WalksRight sendFilesDirectoryIn sendFilesDirectory
  cases opens with
  | false => simp
  | true =>
      simp [sendLoopIn_eq fresh_length fresh_length plainDir plain, whenShort]

end

/-! ## The three places -/

theorem infix_fileShortenName {name short : Path} (shortened : fileShortenName name = some short) :
    short <:+: name := by
  have token := List.mem_of_getLast? shortened
  obtain ⟨i, found⟩ := List.mem_iff_getElem?.mp (List.mem_filter.mp token).1
  rw [← List.getElem?_intersperse_two_mul] at found
  have joined : ((name.splitOn 47).intersperse [47]).flatten = name := List.intercalate_splitOn 47
  rw [← joined]
  exact List.infix_of_mem_flatten (List.mem_of_getElem? found)

theorem fileToFolderDest_eq {buffer : List UInt8} {dirName name short : Path}
    (shortened : fileShortenName name = some short) :
    fileToFolderDest buffer dirName name = readNFilesDest buffer dirName short := by
  unfold fileToFolderDest
  rw [shortened]
  rfl

/-- A path comes out right, and nothing else is written to, exactly where it has at most 255 bytes;
`fileToFolder` moreover needs a component to take. -/
theorem paths_fit {buffer : List UInt8} {dirName name : Path} {n : Int} {opens : Bool} {entries : Entries}
    (length : buffer.length = posixPathMax) (plainDir : 0 ∉ dirName) (plain : 0 ∉ name)
    (plainTree : entries.CStrings) :
    (Composes (readNFilesDest buffer dirName name) (fileName dirName name) ↔
      dirName.length + 1 + name.length < posixPathMax) ∧
    ((∃ short, fileShortenName name = some short ∧
        Composes (fileToFolderDest buffer dirName name) (fileName dirName short)) ↔
      ∃ short, fileShortenName name = some short ∧ dirName.length + 1 + short.length < posixPathMax) ∧
    (Composes (sendFilesName buffer dirName name) (fileName dirName name) ↔
      dirName.length + 1 + name.length < posixPathMax) ∧
    (WalksRight buffer dirName n opens entries ↔
      (opens → ∀ path ∈ statted dirName n entries 0, path.length < posixPathMax)) := by
  rw [sendFilesName_eq length plainDir, composes_iff length plainDir plain, length_fileName]
  refine ⟨Iff.rfl, exists_congr fun short => and_congr_right fun shortened => ?_, Iff.rfl,
    walksRight_iff length plainDir plainTree⟩
  have plainShort : 0 ∉ short := fun mem => plain ((infix_fileShortenName shortened).subset mem)
  rw [fileToFolderDest_eq shortened, composes_iff length plainDir plainShort, length_fileName]

/-- A file of 60 bytes below two directories of 100. -/
def deepTree : Entries :=
  .directory (List.replicate 100 100) true
    (.directory (List.replicate 100 100) true (.file (List.replicate 60 102) .done) .done) .done

/-- With a directory name of 250 bytes and a file name of 5, and in the deep tree, bytes are written
past the array. -/
theorem paths_overflow :
    ¬Composes (readNFilesDest (List.replicate posixPathMax 0) (List.replicate 250 100)
        (List.replicate 5 102)) (fileName (List.replicate 250 100) (List.replicate 5 102)) ∧
      fileToFolderDest (List.replicate posixPathMax 0) (List.replicate 250 100) (List.replicate 5 102) =
        none ∧
      ¬WalksRight (List.replicate posixPathMax 0) [119] (-1) true deepTree := by
  refine ⟨?_, by decide +kernel, ?_⟩
  · rw [composes_iff List.length_replicate (by decide +kernel) (by decide +kernel), length_fileName,
      List.length_replicate, List.length_replicate]
    decide
  · have plain : deepTree.CStrings :=
      ⟨by decide +kernel, ⟨by decide +kernel, ⟨by decide +kernel, trivial⟩, trivial⟩, trivial⟩
    rw [walksRight_iff List.length_replicate (by decide) plain]
    decide +kernel

theorem paths_fit_example :
    Composes (readNFilesDest (List.replicate posixPathMax 7) [100] [102]) (fileName [100] [102]) :=
  (@paths_fit _ _ _ (-1) true .done List.length_replicate (by decide) (by decide)
    trivial).1.mpr (by decide)

end FileServer
