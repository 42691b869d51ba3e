import EnvFill.Error
import EnvFill.Storage.Resolve
import EnvFill.Storage.Walk
import EnvFill.Ignore.ScanFilter
import EnvFill.Name.File

/-!
Finding the folders of a project that hold settings files, and the settings files of a folder.
-/

namespace EnvFill.Project

open Storage

/-- A folder: its path below the project, its place on the disk, and the settings files in it. -/
structure Folder where
  path : String
  location : List String
  files : List String
  deriving DecidableEq, Repr

def Folder.isRoot (folder : Folder) : Bool := folder.path == "."

def Folder.label (folder : Folder) : String := if folder.isRoot then "./ (root)" else folder.path

def markersIn (disk : Disk) (folder : Pathname) : Except Error (List String) :=
  Name.markerFiles.filterM fun name => followed (disk.isFile (folder.join (.ofString name)))

def isSearched (maxDepth : Int) (path : Location) : Bool :=
  (path.length : Int) ≤ maxDepth &&
    path.getLast?.all fun name =>
      !Ignore.skippedDirectories.contains name && name.toList.head? != some '.'

/-- The path of a place below a project; the project itself is a dot. -/
def relativeText (path : Location) : String := (Pathname.mk .current path).toString

def folderAt? (disk : Disk) (root path : Location) : Except Error (Option Folder) := do
  let markers ← markersIn disk (.ofRoot (root ++ path))
  return if markers.isEmpty then none else some ⟨relativeText path, root ++ path, markers⟩

/-- The places below a project that the search for folders comes to. What is no directory holds no
others. -/
def searchedPlaces (root : Option Node) (maxDepth : Int) : List Location :=
  match root with
  | some (.dir entries) => (walkFrom (isSearched maxDepth) [] (.dir entries)).map Visit.path
  | _ => [[]]

/-- The folders of a project with settings files, at most `maxDepth` levels down. -/
def discover (disk : Disk) (root : Pathname) (maxDepth : Int) : Except Error (List Folder) := do
  let place ← followed (disk.resolve root)
  if maxDepth < 0 then return []
  let node ← followed (disk.find (.ofRoot place))
  let folders ← (searchedPlaces node maxDepth).mapM (folderAt? disk place)
  return folders.filterMap id

/-- Whether a directory entry is a file or leads to one. Only a link whose end is missing counts as
leading nowhere; no answer can be given for one that fails otherwise. -/
def entryIsFile? (disk : Disk) (folder : Location) : String × Node → Option Bool
  | (_, .file _) => some true
  | (_, .dir _) => some false
  | (name, .link _) =>
    match locateFrom? disk.top maxLinks folder [name] with
    | .ok place => some (!(disk.top.get? place).any Node.isDir)
    | .error .missing => some false
    | .error _ => none

def isSettingsName (name : String) : Bool := ".env".toList.isPrefixOf name.toList

/-- The settings files among the entries of a directory, by name; none if there is no answer for one
of them. -/
def settingsFilesOf (disk : Disk) (folder : Location) (entries : List (String × Node)) :
    List String :=
  let named := entries.filter fun entry => isSettingsName entry.1
  match named.mapM (entryIsFile? disk folder) with
  | none => []
  | some answers =>
    Sorted.ofList (((named.zip answers).filter Prod.snd).map fun answered => answered.1.1)

/-- The settings files in a directory, by name; none if it cannot be listed. -/
def settingsFiles (disk : Disk) (folder : Pathname) : Except Error (List String) :=
  match disk.locate? folder with
  | .error .zeroCharacter => .error (.notFollowed .zeroCharacter)
  | .error _ => .ok []
  | .ok place => .ok (settingsFilesOf disk place (((disk.top.get? place).map Node.entries).getD []))

def defaultTarget (disk : Disk) (folder : Pathname) : Except Error String := do
  let existing ← settingsFiles disk folder
  return (Name.writableFiles.find? existing.contains).getD ".env"

end EnvFill.Project
