import EnvFill.Text.Blank
import EnvFill.Text.DecimalDigit

/-!
Whole numbers as they are written in settings: an optional sign and decimal digits of any script,
with single underscores between digits allowed, and blanks at the ends ignored. The separators
U+001C to U+001F, blank elsewhere, are not blank around a number.
-/

namespace EnvFill.Text.Numeral

def maxDigits : Nat := 4300

/-- The values of the digits of a numeral without sign. Each underscore stands between two digits.
-/
def digits? : List Char → Option (List Nat)
  | [] => none
  | [c] => (decimalDigit? c).map ([·])
  | c :: '_' :: rest => do
    let value ← decimalDigit? c
    let values ← digits? rest
    return value :: values
  | c :: rest => do
    let value ← decimalDigit? c
    let values ← digits? rest
    return value :: values

def ofDigits (values : List Nat) : Nat := values.foldl (fun n value => 10 * n + value) 0

def natural? (text : List Char) : Option Nat := do
  let values ← digits? text
  if values.length ≤ maxDigits then some (ofDigits values) else none

/-- The characters that may stand around a number. -/
def isPadding (c : Char) : Bool := isBlank c && !(0x1C ≤ c.toNat && c.toNat ≤ 0x1F)

def parse? (text : List Char) : Option Int :=
  match dropEndWhile isPadding (text.dropWhile isPadding) with
  | '-' :: rest => (natural? rest).map fun n => -(n : Int)
  | '+' :: rest => (natural? rest).map Int.ofNat
  | rest => (natural? rest).map Int.ofNat

end EnvFill.Text.Numeral
