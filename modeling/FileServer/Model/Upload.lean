import FileServer.Model.Store

/-!
# `sendFilesDirectory`

The walk of the command `-w` in `client.c` over a directory tree. `stat` succeeds, no path is cut off,
and the counts stay within `int`.
-/

namespace FileServer

def slash : UInt8 := 47
def dot : UInt8 := 46

/-- `file_name`, from `dir_name` and `d_name`. -/
def fileName (dirName name : Path) : Path := dirName ++ slash :: name

/-- `strncmp(file->d_name,".",1) != 0`. -/
def undotted (name : Path) : Bool := name.head? ≠ some dot

/-- What is left to read from a directory, in the order in which `readdir` gives it. -/
inductive Entries where
  | done
  | file (name : Path) (rest : Entries)
  /-- Neither a regular file nor a directory. -/
  | other (name : Path) (rest : Entries)
  /-- `opens` says whether `opendir` succeeds on the directory. -/
  | directory (name : Path) (opens : Bool) (entries rest : Entries)
deriving DecidableEq, Repr

/-- The loop over a directory: the files that are opened, written and closed, and what
`sendFilesDirectory` returns. `sent` is `sent_f`. -/
def sendLoop (dirName : Path) (n : Int) : Entries → Int → List Path × Int
  | .done, sent => ([], sent)
  | .file name rest, sent =>
      let sent' := if n ≠ -1 then sent + 1 else sent
      if n < sent' ∧ n ≠ -1 then ([], 0)
      else
        let (issued, ret) := sendLoop dirName n rest sent'
        (fileName dirName name :: issued, ret)
  | .other _ rest, sent => sendLoop dirName n rest sent
  | .directory name opens entries rest, sent =>
      if undotted name then
        let (below, counted) :=
          if opens then sendLoop (fileName dirName name) (n - sent) entries 0 else ([], -1)
        let (issued, ret) := sendLoop dirName n rest (sent + counted)
        (below ++ issued, ret)
      else sendLoop dirName n rest sent

def sendFilesDirectory (dirName : Path) (n : Int) (opens : Bool) (entries : Entries) :
    List Path × Int :=
  if opens then sendLoop dirName n entries 0 else ([], -1)

end FileServer
