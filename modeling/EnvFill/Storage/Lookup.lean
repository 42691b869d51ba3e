import EnvFill.Storage.DiskError
import EnvFill.Storage.Node
import EnvFill.Storage.Pathname

/-!
Following paths on a disk: component by component along what is there, through links. What lies at a
path is looked up in this way; a path on which nothing lies is no failure, but one with a name that
is too long is.
-/

namespace EnvFill.Storage

open Text

/-- A disk, and the directory that relative paths begin at. -/
structure Disk where
  top : Node
  current : Location

def maxLinks : Nat := 40

def maxNameBytes : Nat := 255

def maxPathBytes : Nat := 4095

def isTooLong (name : String) : Bool := maxNameBytes < name.utf8ByteSize

def components (target : String) : List String :=
  (splitAtEach (· == '/') target.toList).map String.ofList

/-- The components of a link that count. Unlike in other paths `.` does, and so does a slash at the
end: they ask for a directory. -/
def linkSteps (target : String) : List String :=
  (components target).filter (!·.isEmpty) ++ if target.toList.getLast? = some '/' then ["."] else []

/-- Where the path in a link begins, if the link lies in the directory `parent`. -/
def linkStart (parent : Location) (target : String) : Location :=
  if target.toList.head? = some '/' then [] else parent

/-- Goes from the directory `place` along `steps`, through at most `links` links. -/
def locateFrom? (top : Node) (links : Nat) (place : Location) :
    List String → Except DiskError Location
  | [] => .ok place
  | step :: rest =>
    if step = "." then locateFrom? top links place rest
    else if step = ".." then locateFrom? top links place.dropLast rest
    else if isTooLong step then .error .nameTooLong
    else
      match top.get? (place ++ [step]) with
      | none => .error .missing
      | some (.dir _) => locateFrom? top links (place ++ [step]) rest
      | some (.file _) => if rest.isEmpty then .ok (place ++ [step]) else .error .notDirectory
      | some (.link target) =>
        match links with
        | 0 => .error .tooManyLinks
        | links + 1 => locateFrom? top links (linkStart place target) (linkSteps target ++ rest)
  termination_by steps => (links, steps.length)

def DiskError.isAbsence : DiskError → Bool
  | .missing => true
  | .notDirectory => true
  | .tooManyLinks => true
  | .zeroCharacter => true
  | _ => false

namespace Disk

def startOf (disk : Disk) (path : Pathname) : Location :=
  if path.isAbsolute then [] else disk.current

def checkText (path : Pathname) : Except DiskError Unit :=
  if path.hasZero then .error .zeroCharacter
  else if maxPathBytes < path.toString.utf8ByteSize then .error .nameTooLong
  else .ok ()

def locate? (disk : Disk) (path : Pathname) : Except DiskError Location := do
  checkText path
  locateFrom? disk.top maxLinks (disk.startOf path) path.parts

def locateDirectory? (disk : Disk) (path : Pathname) : Except DiskError Location := do
  checkText path
  locateFrom? disk.top maxLinks (disk.startOf path) (path.parts ++ ["."])

def findPlace (disk : Disk) (path : Pathname) : Except DiskError (Option Location) :=
  match disk.locate? path with
  | .ok place => .ok (some place)
  | .error error => if error.isAbsence then .ok none else .error error

def find (disk : Disk) (path : Pathname) : Except DiskError (Option Node) :=
  (disk.findPlace path).map fun place => place.bind fun place => disk.top.get? place

def exists? (disk : Disk) (path : Pathname) : Except DiskError Bool :=
  (disk.find path).map Option.isSome

def isDir (disk : Disk) (path : Pathname) : Except DiskError Bool :=
  (disk.find path).map fun node => node.any Node.isDir

def bytes? (disk : Disk) (path : Pathname) : Except DiskError (Option (List UInt8)) :=
  (disk.find path).map fun node => node.bind Node.bytes?

def isFile (disk : Disk) (path : Pathname) : Except DiskError Bool :=
  (disk.bytes? path).map Option.isSome

def put (disk : Disk) (place : Location) (node : Node) : Disk :=
  { disk with top := Node.put node place disk.top }

end Disk

end EnvFill.Storage
