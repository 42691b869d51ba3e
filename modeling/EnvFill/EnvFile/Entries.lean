import EnvFill.EnvFile.Line
import EnvFill.EnvFile.Value
import EnvFill.OrderedMap
import EnvFill.Text.Utf8

/-!
The settings that a text makes, in order. A file is read leniently: bytes that are no text are
dropped. A pasted text is read like a file, but only keys of the usual shape count, and a remark
after a value is cut off.
-/

namespace EnvFill.EnvFile

open Text

abbrev Entries := OrderedMap String String

namespace Entries

/-- The settings of a list of lines. A repeated key takes its last value. -/
def ofLines (lines : List (List Char)) : Entries :=
  OrderedMap.ofList <| (lines.filterMap Line.split?).map fun (key, value) =>
    (String.ofList key, String.ofList (Value.unquote value))

def ofText (text : String) : Entries := ofLines (lines text.toList)

def ofBytes (bytes : List UInt8) : Entries := ofLines ((byteLines bytes).map Utf8.decodeLossy)

end Entries

/-- Key names that a paste may set: a letter or underscore, then letters, digits and underscores. -/
def isPlainKey : List Char → Bool
  | [] => false
  | first :: rest => (first.isAlpha || first == '_') && rest.all fun c => c.isAlphanum || c == '_'

/-- Cuts a value off before the first `#` that follows a space. -/
def cutRemark : List Char → Option (List Char)
  | ' ' :: '#' :: _ => some []
  | c :: rest => (cutRemark rest).map (c :: ·)
  | [] => none

def pastedValue (value : List Char) : List Char :=
  let value := Value.unquote value
  match cutRemark value with
  | some kept => strip kept
  | none => value

/-- The setting that a pasted line makes. Lines that begin with `//` are comments too. -/
def pastedSetting? (line : List Char) : Option (String × String) :=
  if "//".toList.isPrefixOf (strip line) then none
  else
    match Line.split? line with
    | some (key, value) =>
      if isPlainKey key then some (String.ofList key, String.ofList (pastedValue value)) else none
    | none => none

def Entries.ofPaste (text : String) : Entries :=
  OrderedMap.ofList ((pastedLines text.toList).filterMap pastedSetting?)

end EnvFill.EnvFile
