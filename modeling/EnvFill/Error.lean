import EnvFill.Storage.Lookup
import EnvFill.Ignore.Pattern
import EnvFill.Text.Quoted
import EnvFill.Toml.Scalar

/-!
What can go wrong in a run, and the words for it.
-/

namespace EnvFill

open Storage

inductive Error where
  /-- The root of a scan is no directory. -/
  | notScannable (root : Location)
  /-- A file could not be written. -/
  | notWritten (file : Pathname) (cause : DiskError)
  /-- A path cannot be followed, so that it is not known whether anything lies there. -/
  | notFollowed (cause : DiskError)
  /-- A line of ignore patterns makes no expression. -/
  | badPattern (error : Ignore.PatternError)
  /-- A file that must be text is not. -/
  | notUtf8
  /-- The project's manifest is not read. -/
  | badManifest (fault : Toml.Fault)
  /-- The project's entry in its manifest is not a table. -/
  | projectNotTable
  /-- A line was asked for after the last one. -/
  | endOfInput
  deriving DecidableEq, Repr

namespace Error

def placeText (place : Location) : String := (Pathname.ofRoot place).toString

def rangeText (c : Char) : String := if c = '\\' then "\\\\" else c.toString

def message : Error → String
  | .notScannable root => "Cannot scan " ++ placeText root ++ ": not a directory"
  | .notWritten file cause => "Failed to write " ++ file.toString ++ ": " ++ cause.message
  | .notFollowed cause => "a path cannot be followed: " ++ cause.message
  | .badPattern (.notPattern line) => "Invalid git pattern: " ++ Text.quoted line
  | .badPattern (.badRange low high) => "bad character range " ++ rangeText low ++ "-" ++ rangeText high
  | .notUtf8 => "the file is not UTF-8 text"
  | .badManifest .malformed => "pyproject.toml is not well written"
  | .badManifest .hugeNumber => "a number in pyproject.toml has too many digits"
  | .badManifest .tooDeep => "the values in pyproject.toml lie too deep"
  | .projectNotTable => "the project entry of pyproject.toml is not a table"
  | .endOfInput => "end of input"

/-- Whether a run tells the user about the error and goes on. -/
def isReported : Error → Bool
  | .notScannable _ => true
  | .notWritten _ _ => true
  | _ => false

/-- Why a file is not written. What is no path at all cannot even be tried. -/
def ofWrite (file : Pathname) : DiskError → Error
  | .zeroCharacter => .notFollowed .zeroCharacter
  | cause => .notWritten file cause

end Error

def followed {α : Type} (result : Except DiskError α) : Except Error α :=
  result.mapError .notFollowed

end EnvFill
