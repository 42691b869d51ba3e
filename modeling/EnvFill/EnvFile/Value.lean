import EnvFill.Text.Blank

/-!
The written form of a value: bare where nothing in it can be misread, otherwise in double quotes
with backslash escapes. Reading also takes off single quotes, inside of which nothing is escaped.
-/

namespace EnvFill.EnvFile.Value

open Text

variable {α : Type} [Character α]

/-- Resolves `\n`, `\\` and `\"`; any other backslash stands for itself. -/
def unescape : List α → List α
  | [] => []
  | [a] => [a]
  | a :: b :: rest =>
    if Character.is '\\' a then
      if Character.is 'n' b then Character.ofChar '\n' :: unescape rest
      else if Character.is '\\' b then Character.ofChar '\\' :: unescape rest
      else if Character.is '"' b then Character.ofChar '"' :: unescape rest
      else a :: b :: unescape rest
    else a :: unescape (b :: rest)

/-- Whether the value begins and ends with `quote`, at two places. -/
def isEnclosedBy (quote : Char) : List α → Bool
  | [] => false
  | first :: rest => Character.is quote first && rest.getLast?.any (Character.is quote)

def unquote (value : List α) : List α :=
  if isEnclosedBy '"' value then unescape value.tail.dropLast
  else if isEnclosedBy '\'' value then value.tail.dropLast
  else value

/-- The characters that a bare value may not hold: blanks and those with a meaning to readers of
such files. -/
def isSpecial (c : Char) : Bool := isBlank c || ['#', '=', '\\', '"', '\'', '`', '!'].contains c

def needsQuotes (value : List Char) : Bool := value.any isSpecial

def escapeChar (c : Char) : List Char :=
  if c = '\\' then ['\\', '\\']
  else if c = '"' then ['\\', '"']
  else if c = '\n' then ['\\', 'n']
  else [c]

def format (value : List Char) : List Char :=
  if value.isEmpty then ['"', '"']
  else if needsQuotes value then '"' :: value.flatMap escapeChar ++ ['"']
  else value

/-- The value with all but a few characters at its ends hidden. Short values are hidden altogether,
and an empty one is called so. -/
def mask (value : List Char) : List Char :=
  if value.isEmpty then "(empty)".toList
  else if value.length ≤ 6 then "••••••".toList
  else value.take 3 ++ "••••".toList ++ value.drop (value.length - 2)

end EnvFill.EnvFile.Value
