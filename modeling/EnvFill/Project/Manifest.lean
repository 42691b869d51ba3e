import EnvFill.Error
import EnvFill.Text.Utf8
import EnvFill.Toml.Document

/-!
The manifest of a project, and whether the project is this program itself.
-/

namespace EnvFill.Project

open Storage Text

def ownName : String := "envsetter"

def manifestFile : String := "pyproject.toml"

def isOwnEntry : Option Toml.Value → Except Error Bool
  | none => .ok false
  | some (.table entry) =>
    match entry.lookup "name" with
    | some (.string name) => .ok (name == ownName)
    | _ => .ok false
  | some _ => .error .projectNotTable

/-- Whether a manifest is that of this program. One that is not well written is not. -/
def isOwnManifest (bytes : List UInt8) : Except Error Bool :=
  match Utf8.decodeStrict? bytes with
  | none => .error .notUtf8
  | some text =>
    match Toml.parse text with
    | .error .malformed => .ok false
    | .error fault => .error (.badManifest fault)
    | .ok table => isOwnEntry (table.lookup "project")

def isOwnProject (disk : Disk) (root : Pathname) : Except Error Bool := do
  match ← followed (disk.bytes? (root.join (.ofString manifestFile))) with
  | none => return false
  | some bytes => isOwnManifest bytes

end EnvFill.Project
