import EnvFill.Text.Printable

/-!
Text quoted in a message: in single quotes, or in double quotes where it holds a single quote and no
double quote, with backslash escapes for what does not print.
-/

namespace EnvFill.Text.Quoted

/-- `count` lower-case hexadecimal digits of `n`, leading zeros included. -/
def hexDigits (count n : Nat) : List Char :=
  (List.range count).reverse.map fun place => Nat.digitChar ((n >>> (4 * place)) % 16)

/-- The shortest escape by code point: two, four or eight digits. -/
def codePointEscape (c : Char) : List Char :=
  let n := c.toNat
  if n < 0x100 then '\\' :: 'x' :: hexDigits 2 n
  else if n < 0x10000 then '\\' :: 'u' :: hexDigits 4 n
  else '\\' :: 'U' :: hexDigits 8 n

def encodeChar (quote c : Char) : List Char :=
  if c = '\\' || c = quote then ['\\', c]
  else if c = '\n' then ['\\', 'n']
  else if c = '\r' then ['\\', 'r']
  else if c = '\t' then ['\\', 't']
  else if isPrintable c then [c]
  else codePointEscape c

/-- The quote that leaves fewer escapes; the single one if in doubt. -/
def quoteFor (text : List Char) : Char :=
  if text.contains '\'' && !text.contains '"' then '"' else '\''

end EnvFill.Text.Quoted

namespace EnvFill.Text

def quoted (text : String) : String :=
  let quote := Quoted.quoteFor text.toList
  String.ofList (quote :: text.toList.flatMap (Quoted.encodeChar quote) ++ [quote])

end EnvFill.Text
