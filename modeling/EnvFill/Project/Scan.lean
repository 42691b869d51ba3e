import EnvFill.EnvFile.Entries
import EnvFill.Fill.Found
import EnvFill.Name.Rule
import EnvFill.Project.Discovery
import EnvFill.Project.Manifest

/-!
Scans of a project for variables: through all its code, or through its settings files alone.
-/

namespace EnvFill.Project

open Storage EnvFile Fill Ignore Text

/-- How many bytes of a file are looked at to tell text from other data. -/
def sniffedBytes : Nat := 8192

def looksLikeText (bytes : List UInt8) : Bool := !(bytes.take sniffedBytes).contains 0

def variableKeys (lines : List (List Char)) : List String :=
  Sorted.ofList (((lines.filterMap Line.key?).map String.ofList).filter Name.isVariableKey)

/-- The patterns that leave out this program's own code. -/
def ownPatterns : List String := ["/envsetter/", "/tests/", "/README.md"]

/-- What a scan through code found: the files it read, in order, and the variables. -/
structure CodeScan where
  files : List String
  found : Found
  deriving DecidableEq, Repr

def isEntered (filter : ScanFilter) (maxDepth : Int) (path : Location) : Bool :=
  (path.length : Int) ≤ maxDepth && !filter.ignoresDirectory (.ofRoot []) ⟨.current, path⟩

def isRead (filter : ScanFilter) (path : Location) : Bool :=
  (path.getLast?.any fun name => !Name.runtimeFiles.contains name && Name.isCodeFile name) &&
    !filter.ignoresFile (.ofRoot []) ⟨.current, path⟩

/-- Whether a path from the root is short enough for what lies at it to be opened. -/
def isOpenable (place : Location) : Bool :=
  (Pathname.ofRoot place).toString.utf8ByteSize ≤ maxPathBytes

def entryBytes? (disk : Disk) (folder : Location) : String × Node → Option (List UInt8)
  | (_, .file bytes) => some bytes
  | (_, .dir _) => none
  | (name, .link _) =>
    match locateFrom? disk.top maxLinks folder [name] with
    | .error _ => none
    | .ok place =>
      match disk.top.get? place with
      | some (.file bytes) => some bytes
      | _ => none

/-- The bytes that are read of an entry of a directory. Nothing is read of what cannot be opened, nor
of what is no text. -/
def textBytes? (disk : Disk) (folder : Location) (entry : String × Node) : Option (List UInt8) :=
  if isOpenable (folder ++ [entry.1]) then (entryBytes? disk folder entry).filter looksLikeText
  else none

/-- What a directory of the project is found to hold, by name: nothing if it cannot be opened. -/
def entriesListed (root : Location) (visit : Visit) : List (String × Node) :=
  if isOpenable (root ++ visit.path) then Sorted.byName visit.entries else []

def filesRead (disk : Disk) (root : Location) (filter : ScanFilter) (visit : Visit) :
    List (String × List UInt8) :=
  (entriesListed root visit).filterMap fun entry =>
    let path := visit.path ++ [entry.1]
    if isRead filter path then
      (textBytes? disk (root ++ visit.path) entry).map fun bytes => (relativeText path, bytes)
    else none

def scanCodeIn (disk : Disk) (root : Location) (node : Node) (filter : ScanFilter)
    (maxDepth : Int) : CodeScan :=
  let files := (walkFrom (isEntered filter maxDepth) [] node).flatMap (filesRead disk root filter)
  { files := files.map Prod.fst
    found := .ofMentions <| files.flatMap fun (path, bytes) =>
      (Name.candidates (Utf8.decodeLossy bytes)).map fun name => (name, path) }

def scanRoot (disk : Disk) (root : Pathname) : Except Error (Location × Node) := do
  let place ← followed (disk.resolve root)
  match ← followed (disk.findPlace (.ofRoot place)) with
  | none => throw (.notScannable place)
  | some folder =>
    match disk.top.get? folder with
    | some (.dir entries) => return (folder, .dir entries)
    | _ => throw (.notScannable place)

def scanCode (disk : Disk) (root : Pathname) (extraIgnore : List String) (maxDepth : Int) :
    Except Error CodeScan := do
  let (place, node) ← scanRoot disk root
  let own ← isOwnProject disk (.ofRoot place)
  match ScanFilter.build (extraIgnore ++ if own then ownPatterns else []) with
  | .error error => throw (.badPattern error)
  | .ok filter => return scanCodeIn disk place node filter maxDepth

def variablesOfFile (disk : Disk) (folder : Location) (name : String) :
    Except Error (List String) := do
  match ← followed (disk.bytes? (.ofRoot (folder ++ [name]))) with
  | none => return []
  | some bytes =>
    return if looksLikeText bytes then variableKeys (lines (Utf8.decodeLossy bytes)) else []

def scanSettings (disk : Disk) (root : Pathname) : Except Error Found := do
  let (place, _) ← scanRoot disk root
  let mentions ← Name.sourceFiles.mapM fun file => do
    return (← variablesOfFile disk place file).map fun name => (name, file)
  return .ofMentions mentions.flatten

def scan (disk : Disk) (root : Pathname) (deep : Bool) (extraIgnore : List String)
    (maxDepth : Int) : Except Error Found :=
  if deep then (scanCode disk root extraIgnore maxDepth).map CodeScan.found
  else scanSettings disk root

end EnvFill.Project
