import EnvFill.Storage.Resolve

/-!
Changes of a disk. A file is written whole: a draft is made beside it and takes its place, so that
the file holds either the new bytes or what it held before. Directories that were made on the way
stay even if the file cannot be written.
-/

namespace EnvFill.Storage

/-- A change of a disk, which may fail. What was changed before a failure stays changed. -/
abbrev Edit (ε α : Type) := ExceptT ε (StateM Disk) α

namespace Edit

def look {ε α : Type} (question : Disk → Except ε α) : Edit ε α := do
  match question (← get) with
  | .ok a => return a
  | .error error => throw error

def mapError {ε δ α : Type} (f : ε → δ) (edit : Edit ε α) : Edit δ α := fun disk =>
  let (result, disk) := edit.run.run disk
  (result.mapError f, disk)

end Edit

open Edit

def putAt (place : Location) (node : Node) : Edit DiskError Unit :=
  modify fun disk => disk.put place node

/-- The place of the entry that a path ends in, if it ends in a name. The entry itself need not be
there, and if it is a link it is not followed. -/
def Disk.entryPlace? (disk : Disk) (path : Pathname) : Except DiskError (Option Location) := do
  Disk.checkText path
  let parent ← disk.locateDirectory? path.parent
  match path.name? with
  | none => return none
  | some name =>
    if name = ".." then return none
    if isTooLong name then throw .nameTooLong
    return some (parent ++ [name])

/-- Makes a directory. Nothing may be in its place, not even a link. -/
def makeDirectory (path : Pathname) : Edit DiskError Unit := do
  match ← look (·.entryPlace? path) with
  | none => throw .alreadyExists
  | some place =>
    if ((← get).top.get? place).isSome then throw .alreadyExists
    putAt place (.dir [])

def ensureDirectory (path : Pathname) : Edit DiskError Unit :=
  tryCatch (makeDirectory path) fun error => do
    if error = .missing then throw error
    if !(← look (·.isDir path)) then throw error

/-- Makes a directory unless it is there, and those above it as they are needed. -/
def ensureDirectories (path : Pathname) : Edit DiskError Unit :=
  tryCatch (ensureDirectory path) fun error =>
    if _h : error = .missing ∧ path.parts ≠ [] then do
      ensureDirectories path.parent
      ensureDirectory path
    else throw error
  termination_by path.parts.length
  decreasing_by
    have hpos := List.length_pos_iff.2 _h.2
    simp only [Pathname.parent, List.length_dropLast]
    omega

/-- How many bytes the name of a draft has besides the name of its file. -/
def draftBytes : Nat := 14

/-- Whether there can be a draft of a file. It lies where the directory of the file is by the names
in its path alone. -/
def Disk.checkDraft (disk : Disk) (path : Pathname) : Except DiskError Unit := do
  let name := path.name?.getD ""
  let folder := Pathname.ofRoot (Pathname.withoutParents path.parent.parts)
  if name.toList.contains '\x00' then throw .zeroCharacter
  if maxPathBytes < folder.toString.utf8ByteSize + 1 + name.utf8ByteSize + draftBytes then
    throw .nameTooLong
  let _ ← disk.locateDirectory? folder
  if maxNameBytes < name.utf8ByteSize + draftBytes then throw .nameTooLong

/-- Writes a file whole, with the directories that lead to it. A link in its place is replaced. -/
def replaceFile (path : Pathname) (bytes : List UInt8) : Edit DiskError Unit := do
  ensureDirectories path.parent
  look (·.checkDraft path)
  let _ ← look (·.find path)
  match ← look (·.entryPlace? path) with
  | none => throw .busy
  | some place =>
    if ((← get).top.get? place).any Node.isDir then throw .isDirectory
    putAt place (.file bytes)

end EnvFill.Storage
