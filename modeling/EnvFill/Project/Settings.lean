import EnvFill.EnvFile.Edit
import EnvFill.Error
import EnvFill.Storage.Write

/-!
Settings files on the disk: reading them, writing settings, and adding keys to a template.
-/

namespace EnvFill.Project

open Storage EnvFile

/-- The settings in a file; where no file is there are none. -/
def readSettings (disk : Disk) (file : Pathname) : Except Error Entries := do
  match ← followed (disk.bytes? file) with
  | some bytes => return Entries.ofBytes bytes
  | none => return ∅

/-- The content of a file that is about to be changed, if it is there. A directory cannot be. -/
def contentAt (disk : Disk) (file : Pathname) : Except Error (Option (List UInt8)) := do
  match ← followed (disk.find file) with
  | some (.dir _) => throw (.notWritten file .isDirectory)
  | found => return found.bind Node.bytes?

def writeWhole (file : Pathname) (bytes : List UInt8) : Edit Error Unit :=
  (replaceFile file bytes).mapError (.ofWrite file)

/-- Makes settings in a file. The count is that of the keys. -/
def writeSettings (file : Pathname) (entries : Entries) : Edit Error Nat := do
  let place ← Edit.look fun disk => followed (disk.resolve file)
  let content ← Edit.look (contentAt · (.ofRoot place))
  writeWhole (.ofRoot place) (setEntries entries content)
  return entries.size

def onDisk {ε σ α : Type} (edit : Edit ε α) : ExceptT ε (StateM (Disk × σ)) α := fun (disk, held) =>
  let (result, after) := edit.run.run disk
  (result, after, held)

/-- Makes settings in a file and, once they are there, takes them over into those in memory. -/
def writeHeld (file : Pathname) (entries : Entries) : ExceptT Error (StateM (Disk × Entries)) Nat := do
  let count ← onDisk (writeSettings file entries)
  modify fun (disk, held) => (disk, held.merge entries)
  return count

/-- Adds the keys that a template lacks to it. The count is that of the keys added. -/
def syncTemplate (file : Pathname) (keys : List String) : Edit Error Nat := do
  let place ← Edit.look fun disk => followed (disk.resolve file)
  let content ← Edit.look (contentAt · (.ofRoot place))
  match missingKeys content keys with
  | [] => return 0
  | missing =>
    writeWhole (.ofRoot place) (addKeys content missing)
    return missing.length

end EnvFill.Project
