import EnvFill.Number.Binary64

/-!
Text with styles, written in square brackets. A bracket that is meant as text is written with a
backslash before it.
-/

namespace EnvFill.Screen

def isTagStart (c : Char) : Bool := c.isLower || c == '#' || c == '/' || c == '@'

/-- Whether the text after an opening bracket makes a tag: it ends before another one opens. -/
def opensTag : List Char → Bool
  | [] => false
  | first :: rest => isTagStart first && rest.find? (fun c => c == '[' || c == ']') == some ']'

/-- Escapes the tags in a text that comes after `pending` backslashes, which are written here too.
-/
def escapeFrom (pending : Nat) : List Char → List Char
  | [] => List.replicate pending '\\'
  | c :: rest =>
    if c = '\\' then escapeFrom (pending + 1) rest
    else
      let written := if c = '[' && opensTag rest then 2 * pending + 1 else pending
      List.replicate written '\\' ++ c :: escapeFrom 0 rest

/-- The text such that it is shown as it is. A single backslash at the end is doubled, lest it
escape what follows. -/
def escape (text : String) : String :=
  let escaped := escapeFrom 0 text.toList
  let isOpen := ['\\'].isSuffixOf escaped && !(['\\', '\\'].isSuffixOf escaped)
  String.ofList (if isOpen then escaped ++ ['\\'] else escaped)

def padded (width : Nat) (n : Int) : String :=
  let digits := (toString n).toList
  String.ofList (List.replicate (width - digits.length) ' ' ++ digits)

def plural (count : Int) : String := if 1 < count then "s" else ""

def pluralUnlessOne (count : Nat) : String := if count = 1 then "" else "s"

def coverageColor (percent : Int) : String :=
  if 80 ≤ percent then "green" else if 50 ≤ percent then "yellow" else "red"

/-- How much of a bar is full: the share of `done` in `total`, but no less than nothing and no more
than everything, times the width. -/
def filledWidth (done total width : Int) : Nat :=
  if done ≤ 0 then 0
  else if total ≤ done then width.toNat
  else Number.scaledShare done.toNat total.toNat width.toNat

def repeated (count : Nat) (c : Char) : String := String.ofList (List.replicate count c)

/-- Whether a number can be the length of a text: a word of 64 bits, with its sign, holds it. -/
def isTextLength (n : Int) : Bool := -(1 <<< 63 : Int) ≤ n && n < (1 <<< 63 : Int)

def progressBar (done total : Int) (width : Int := 28) : String :=
  if total ≤ 0 then "[dim]" ++ repeated width.toNat '░' ++ "[/dim]"
  else
    let filled := filledWidth done total width
    "[cyan]" ++ repeated filled '█' ++ "[/cyan][dim]" ++ repeated (width.toNat - filled) '░' ++
      "[/dim]"

end EnvFill.Screen
