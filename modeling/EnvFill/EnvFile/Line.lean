import EnvFill.Text.Blank
import EnvFill.Text.Lines

/-!
One line of an environment file: `KEY=value`, with blanks around both parts allowed, or a line that
sets nothing.
-/

namespace EnvFill.EnvFile.Line

open Text

variable {α : Type} [Character α]

/-- The key and the raw value of a line. Blank lines, comments, lines without `=` and lines with
nothing before it set nothing. -/
def split? (line : List α) : Option (List α × List α) :=
  match strip line with
  | [] => none
  | first :: rest =>
    if Character.is '#' first then none
    else
      match cutAtFirst (Character.is '=') (first :: rest) with
      | none => none
      | some (key, value) =>
        match strip key with
        | [] => none
        | key => some (key, strip value)

def key? (line : List α) : Option (List α) := (split? line).map Prod.fst

end EnvFill.EnvFile.Line
