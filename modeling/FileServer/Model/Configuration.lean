import FileServer.Decimal
import FileServer.Model.Store
import FileServer.Text

/-!
# `config.c`

Loading a configuration. A `FILE` is given by what `fgets` will still return; `none` is the reading of a
string at `NULL`.
-/

namespace FileServer

def configLineMax : Nat := 128

structure Settings where
  serverMemorySize : Nat
  pageSize : Nat
  fileMax : Int
  fileHashTbSize : Nat
  workerThreadsN : Int
  socketName : Option (List Char)
deriving DecidableEq, Repr

/-- The value of the next line that starts with `valueStr`, and the lines behind it. -/
def configGetToken (valueStr : List Char) :
    List (List Char) → Option (Option (List Char) × List (List Char))
  | [] => some (none, [])
  | line :: file => do
      let (token, save) ← strtok ['=', ' '] line
      if token.take configLineMax = valueStr.take configLineMax then
        let (token, _) ← strtok ['=', ' ', '\n'] save
        return (some (token.take (configLineMax - 1)), file)
      else configGetToken valueStr file

def configGetInt (valueStr : List Char) (file : List (List Char)) : Option (Int × List (List Char)) := do
  let (token, file) ← configGetToken valueStr file
  return (atoi (← token), file)

def memorySizeKey : List Char := ['m', 'e', 'm', 'o', 'r', 'y', '_', 's', 'i', 'z', 'e']
def pageSizeKey : List Char := ['p', 'a', 'g', 'e', '_', 's', 'i', 'z', 'e']
def fileMaxKey : List Char := ['f', 'i', 'l', 'e', '_', 'm', 'a', 'x']
def fileHashTbSizeKey : List Char :=
  ['f', 'i', 'l', 'e', '_', 'h', 'a', 's', 'h', '_', 't', 'b', '_', 's', 'i', 'z', 'e']
def workerThreadsKey : List Char := ['w', 'o', 'r', 'k', 'e', 'r', '_', 't', 'h', 'r', 'e', 'a', 'd', 's']
def socketNameKey : List Char := ['s', 'o', 'c', 'k', 'e', 't', '_', 'n', 'a', 'm', 'e']

/-- The variables when `0` is returned, and no variables for `-1`. The products are of type `int`. -/
def configGetAll : (text : Option (List Char)) → Option (Option Settings)
  | none => some none
  | some text => do
      let file := fgetsAll configLineMax text.length text
      let (memorySize, file) ← configGetInt memorySizeKey file
      let serverMemorySize := sizeT (cInt (cInt (memorySize * 1024) * 1024))
      if serverMemorySize = 0 then return none
      let (pageSize, file) ← configGetInt pageSizeKey file
      let pageSize := sizeT (cInt (pageSize * 1024))
      if pageSize = 0 then return none
      let (fileMax, file) ← configGetInt fileMaxKey file
      if fileMax = 0 then return none
      let (fileHashTbSize, file) ← configGetInt fileHashTbSizeKey file
      let fileHashTbSize := sizeT fileHashTbSize
      if fileHashTbSize = 0 then return none
      let (workerThreadsN, file) ← configGetInt workerThreadsKey file
      if workerThreadsN = 0 then return none
      let (socketName, _) ← configGetToken socketNameKey file
      return some ⟨serverMemorySize, pageSize, fileMax, fileHashTbSize, workerThreadsN, socketName⟩

end FileServer
