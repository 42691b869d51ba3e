import EnvFill.Text.Lines

/-!
Paths as they are written. Repeated slashes and components `.` do not count; a component `..` stays
until the path is followed on a disk.
-/

namespace EnvFill.Storage

open Text

/-- Where a path begins: at the current directory, at the root, or at the root written with exactly
two slashes, which is kept apart. -/
inductive Anchor where
  | current
  | root
  | doubleRoot
  deriving DecidableEq, Repr

structure Pathname where
  anchor : Anchor
  parts : List String
  deriving DecidableEq, Repr

namespace Pathname

def anchorOf (text : List Char) : Anchor :=
  match (text.takeWhile (· == '/')).length with
  | 0 => .current
  | 2 => .doubleRoot
  | _ => .root

def partsOf (text : List Char) : List String :=
  ((splitAtEach (· == '/') text).filter fun part => part != [] && part != ['.']).map String.ofList

def ofString (text : String) : Pathname := ⟨anchorOf text.toList, partsOf text.toList⟩

def ofRoot (parts : List String) : Pathname := ⟨.root, parts⟩

def isAbsolute (path : Pathname) : Bool := path.anchor != .current

def joinParts (parts : List String) : String := "/".intercalate parts

def toString (path : Pathname) : String :=
  match path.anchor, path.parts with
  | .current, [] => "."
  | .current, parts => joinParts parts
  | .root, parts => "/" ++ joinParts parts
  | .doubleRoot, parts => "//" ++ joinParts parts

def join (base path : Pathname) : Pathname :=
  if path.isAbsolute then path else { base with parts := base.parts ++ path.parts }

def parent (path : Pathname) : Pathname := { path with parts := path.parts.dropLast }

/-- The last component; there is none if the path ends where it begins. -/
def name? (path : Pathname) : Option String := path.parts.getLast?

/-- One component after others: `..` takes the one before it away, and `.` or nothing adds nothing.
-/
def addPart (parts : List String) (part : String) : List String :=
  if part = ".." then parts.dropLast
  else if part = "." || part = "" then parts
  else parts ++ [part]

/-- The names that are left when every `..` takes the one before it away, whatever lies on the disk.
-/
def withoutParents (parts : List String) : List String := parts.foldl addPart []

def hasZero (path : Pathname) : Bool := path.parts.any fun part => part.toList.contains '\x00'

/-- The path below `base`, by components as they are written. -/
def relativeTo? (base path : Pathname) : Option Pathname :=
  if path.anchor = base.anchor && base.parts.isPrefixOf path.parts then
    some ⟨.current, path.parts.drop base.parts.length⟩
  else none

end Pathname

end EnvFill.Storage
