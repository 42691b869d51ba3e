import EnvFill.Toml.Quoted

/-!
Numbers, truth values, dates and times in TOML documents. The readers say only whether one stands at
the beginning of a text and what follows it, or why the document is not read.
-/

namespace EnvFill.Toml

inductive Fault where
  /-- It is not well written. -/
  | malformed
  /-- A whole number has more digits than are read. -/
  | hugeNumber
  /-- Values lie deeper within others than is followed. -/
  | tooDeep
  deriving DecidableEq, Repr

def required {α : Type} (part : Option α) : Except Fault α :=
  match part with
  | some a => .ok a
  | none => .error .malformed

def isDigit (c : Char) : Bool := '0' ≤ c && c ≤ '9'

def isBinaryDigit (c : Char) : Bool := c == '0' || c == '1'

def isOctalDigit (c : Char) : Bool := '0' ≤ c && c ≤ '7'

def isHexDigit (c : Char) : Bool := (hexDigit? c).isSome

def skipDigits (isDigit : Char → Bool) : List Char → List Char
  | '_' :: c :: rest => if isDigit c then skipDigits isDigit rest else '_' :: c :: rest
  | c :: rest => if isDigit c then skipDigits isDigit rest else c :: rest
  | [] => []

def digits? (isDigit : Char → Bool) : List Char → Option (List Char)
  | c :: rest => if isDigit c then some (skipDigits isDigit rest) else none
  | [] => none

def skipSign : List Char → List Char
  | '+' :: rest => rest
  | '-' :: rest => rest
  | text => text

def skipFraction : List Char → List Char
  | '.' :: rest => (digits? isDigit rest).getD ('.' :: rest)
  | text => text

def skipExponent : List Char → List Char
  | 'e' :: rest => (digits? isDigit (skipSign rest)).getD ('e' :: rest)
  | 'E' :: rest => (digits? isDigit (skipSign rest)).getD ('E' :: rest)
  | text => text

/-- What follows the digits of a decimal number before its point. A zero that begins them stands
alone. -/
def wholePart? : List Char → Option (List Char)
  | '0' :: rest => some rest
  | c :: rest => if isDigit c then some (skipDigits isDigit rest) else none
  | [] => none

def maxDigits : Nat := 4300

def decimal (text : List Char) : Except Fault (List Char) := do
  let digits := skipSign text
  let rest ← required (wholePart? digits)
  let after := skipExponent (skipFraction rest)
  let count := (digits.take (digits.length - rest.length)).countP isDigit
  if after.length = rest.length && maxDigits < count then throw .hugeNumber
  return after

def based? : List Char → Option (List Char)
  | '0' :: 'x' :: rest => digits? isHexDigit rest
  | '0' :: 'b' :: rest => digits? isBinaryDigit rest
  | '0' :: 'o' :: rest => digits? isOctalDigit rest
  | _ => none

def number (text : List Char) : Except Fault (List Char) :=
  match based? text with
  | some rest => .ok rest
  | none => decimal text

def afterWord? (word : String) (text : List Char) : Option (List Char) :=
  if word.toList.isPrefixOf text then some (text.drop word.toList.length) else none

def special? (text : List Char) : Option (List Char) :=
  (afterWord? "inf" (skipSign text)).or (afterWord? "nan" (skipSign text))

def twoDigits? : List Char → Option (Nat × List Char)
  | a :: b :: rest =>
    if isDigit a && isDigit b then
      some (10 * (a.toNat - '0'.toNat) + (b.toNat - '0'.toNat), rest)
    else none
  | _ => none

def boundedDigits? (least greatest : Nat) (text : List Char) : Option (Nat × List Char) := do
  let (value, rest) ← twoDigits? text
  if least ≤ value && value ≤ greatest then some (value, rest) else none

def after? (c : Char) : List Char → Option (List Char)
  | d :: rest => if c = d then some rest else none
  | [] => none

def time? (text : List Char) : Option (List Char) := do
  let (_, rest) ← boundedDigits? 0 23 text
  let (_, rest) ← boundedDigits? 0 59 (← after? ':' rest)
  let (_, rest) ← boundedDigits? 0 59 (← after? ':' rest)
  match rest with
  | '.' :: c :: more => return if isDigit c then more.dropWhile isDigit else rest
  | _ => return rest

def skipOffset (text : List Char) : List Char :=
  match text with
  | 'Z' :: rest => rest
  | 'z' :: rest => rest
  | c :: rest =>
    if c = '+' || c = '-' then
      let offset := do
        let (_, rest) ← boundedDigits? 0 23 rest
        let (_, rest) ← boundedDigits? 0 59 (← after? ':' rest)
        return rest
      offset.getD text
    else text
  | [] => text

def isLeapYear (year : Nat) : Bool := year % 4 == 0 && (year % 100 != 0 || year % 400 == 0)

def daysIn (year month : Nat) : Nat :=
  if month = 2 then (if isLeapYear year then 29 else 28)
  else if [4, 6, 9, 11].contains month then 30
  else 31

/-- Whether the text begins like a date, whether that day exists, and what follows it. -/
def date? (text : List Char) : Option (Bool × List Char) := do
  let (century, rest) ← twoDigits? text
  let (year, rest) ← twoDigits? rest
  let (month, rest) ← boundedDigits? 1 12 (← after? '-' rest)
  let (day, rest) ← boundedDigits? 1 31 (← after? '-' rest)
  let year := 100 * century + year
  return (0 < year && day ≤ daysIn year month, rest)

def skipTimeOfDate (text : List Char) : List Char :=
  match text with
  | c :: rest =>
    if c = 'T' || c = 't' || c = ' ' then ((time? rest).map skipOffset).getD text else text
  | [] => text

def word? (text : List Char) : Option (List Char) :=
  (((afterWord? "true" text).or (afterWord? "false" text)).or (special? text)).or (time? text)

def scalar (text : List Char) : Except Fault (List Char) :=
  match date? text with
  | some (exists?, rest) => if exists? then .ok (skipTimeOfDate rest) else .error .malformed
  | none =>
    match word? text with
    | some rest => .ok rest
    | none => number text

end EnvFill.Toml
