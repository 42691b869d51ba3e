/-!
Strings in TOML documents: with escapes in double quotes and without them in single quotes, on one
line or, in three quotes, on several. Each reader is given the text after the opening quotes.
-/

namespace EnvFill.Toml

def isControl (c : Char) : Bool := c.toNat < 0x20 || c.toNat == 0x7F

def isPlain (multiline : Bool) (c : Char) : Bool :=
  !isControl c || c == '\t' || (multiline && c == '\n')

def hexDigit? (c : Char) : Option Nat :=
  if '0' ≤ c && c ≤ '9' then some (c.toNat - '0'.toNat)
  else if 'a' ≤ c && c ≤ 'f' then some (c.toNat - 'a'.toNat + 10)
  else if 'A' ≤ c && c ≤ 'F' then some (c.toNat - 'A'.toNat + 10)
  else none

def escapes : List (Char × Char) :=
  [('b', '\x08'), ('t', '\t'), ('n', '\n'), ('f', '\x0C'), ('r', '\r'), ('"', '"'), ('\\', '\\')]

inductive Place where
  /-- Between characters. -/
  | between
  /-- After a backslash. -/
  | afterBackslash
  /-- In an escape by code point, with so many digits to come and this value so far. -/
  | inCodePoint (digits value : Nat)
  /-- In the blanks between a backslash and the end of its line. -/
  | beforeLineEnd
  /-- In the blanks after an escaped end of a line. -/
  | afterLineEnd

inductive Step where
  /-- The string is not well written. -/
  | refuse
  /-- The string goes on; these characters belong to it. -/
  | goOn (place : Place) (written : List Char)
  /-- The string ends here. -/
  | close (after : List Char)

def stepBetween (multiline : Bool) (c : Char) (rest : List Char) : Step :=
  if c = '\\' then .goOn .afterBackslash []
  else if c = '"' then
    if !multiline then .close rest
    else if ['"', '"'].isPrefixOf rest then .close (rest.drop 2)
    else .goOn .between [c]
  else if isPlain multiline c then .goOn .between [c]
  else .refuse

def step (multiline : Bool) (place : Place) (c : Char) (rest : List Char) : Step :=
  match place with
  | .between => stepBetween multiline c rest
  | .afterBackslash =>
    if c = 'u' then .goOn (.inCodePoint 4 0) []
    else if c = 'U' then .goOn (.inCodePoint 8 0) []
    else if multiline && c = '\n' then .goOn .afterLineEnd []
    else if multiline && (c = ' ' || c = '\t') then .goOn .beforeLineEnd []
    else
      match escapes.lookup c with
      | some written => .goOn .between [written]
      | none => .refuse
  | .inCodePoint digits value =>
    match hexDigit? c with
    | none => .refuse
    | some digit =>
      let value := 16 * value + digit
      if 1 < digits then .goOn (.inCodePoint (digits - 1) value) []
      else if value.isValidChar then .goOn .between [Char.ofNat value]
      else .refuse
  | .beforeLineEnd =>
    if c = ' ' || c = '\t' then .goOn .beforeLineEnd []
    else if c = '\n' then .goOn .afterLineEnd []
    else .refuse
  | .afterLineEnd =>
    if c = ' ' || c = '\t' || c = '\n' then .goOn .afterLineEnd [] else stepBetween multiline c rest

/-- Reads a string with escapes from a place on; gives it and what follows its closing quotes. -/
def readEscaped (multiline : Bool) : Place → List Char → Option (List Char × List Char)
  | _, [] => none
  | place, c :: rest =>
    match step multiline place c rest with
    | .refuse => none
    | .goOn place written =>
      (readEscaped multiline place rest).map fun (text, after) => (written ++ text, after)
    | .close after => some ([], after)

/-- Reads a string without escapes, up to one single quote or, on several lines, three of them. -/
def readLiteral (multiline : Bool) : List Char → Option (List Char × List Char)
  | [] => none
  | c :: rest =>
    if c = '\'' && (!multiline || ['\'', '\''].isPrefixOf rest) then
      some ([], if multiline then rest.drop 2 else rest)
    else if isPlain multiline c then do
      let (text, after) ← readLiteral multiline rest
      return (c :: text, after)
    else none

/-- Up to two more quotes before three closing ones belong to the string. -/
def takeExtraQuotes (quote : Char) (text rest : List Char) : List Char × List Char :=
  let extra := (rest.take 2).takeWhile (· == quote)
  (text ++ extra, rest.drop extra.length)

/-- A line end right after three opening quotes does not count. -/
def skipFirstLineEnd : List Char → List Char
  | '\n' :: rest => rest
  | text => text

def readLine? : List Char → Option (List Char × List Char)
  | '"' :: rest => readEscaped false .between rest
  | '\'' :: rest => readLiteral false rest
  | _ => none

def readString? : List Char → Option (List Char × List Char)
  | '"' :: '"' :: '"' :: rest =>
    (readEscaped true .between (skipFirstLineEnd rest)).map fun (text, after) =>
      takeExtraQuotes '"' text after
  | '\'' :: '\'' :: '\'' :: rest =>
    (readLiteral true (skipFirstLineEnd rest)).map fun (text, after) =>
      takeExtraQuotes '\'' text after
  | text => readLine? text

end EnvFill.Toml
