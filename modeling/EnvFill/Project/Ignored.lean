import EnvFill.Error
import EnvFill.Ignore.ScanFilter
import EnvFill.Text.Utf8

/-!
Whether a project keeps a file out of version control.
-/

namespace EnvFill.Project

open Storage Ignore Text

/-- The lines of a text, each with its end. A text that ends a line has no line after it. -/
def endedLines (text : List Char) : List (List Char) :=
  match lines text with
  | [] => []
  | all =>
    let ended := all.dropLast.map (· ++ ['\n'])
    match all.getLast? with
    | some (c :: rest) => ended ++ [c :: rest]
    | _ => ended

def ignorePatterns (bytes : List UInt8) : Except Error (List Pattern) :=
  match Utf8.decodeStrict? (unifyLineEnds bytes) with
  | none => .error .notUtf8
  | some text =>
    (parsePatterns ((endedLines text).map String.ofList)).mapError .badPattern

/-- Whether the project's ignore file covers a file. There is no answer without an ignore file. -/
def isIgnored? (disk : Disk) (project file : Pathname) : Except Error (Option Bool) := do
  match ← followed (disk.bytes? (project.join (.ofString ".gitignore"))) with
  | none => return none
  | some bytes =>
    let patterns ← ignorePatterns bytes
    return some ((ScanFilter.visiblePath? project file).any (ignores patterns))

end EnvFill.Project
