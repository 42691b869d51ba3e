import EnvFill.Text.Character

/-!
The contents of files as text. Decoding keeps each byte that belongs to no character as a glyph of
its own, so it loses nothing: `encode_decode` gives the bytes back. The lossy reading drops such
bytes and the strict reading refuses them.
-/

namespace EnvFill.Text

/-- What a file holds at one place: a character, or a byte that is part of none. -/
inductive Glyph where
  | char (c : Char)
  | stray (byte : UInt8)
  deriving DecidableEq, Repr

instance : Character Glyph where
  ofChar := .char
  char?
    | .char c => some c
    | .stray _ => none
  char?_eq_some_iff {a c} := by cases a <;> simp

namespace Utf8

def firstChar? (bytes : List UInt8) : Option Char :=
  (bytes.take 4).toByteArray.utf8DecodeChar? 0

/-- Reads characters where they are well encoded; any other byte stands alone. -/
def decode : List UInt8 → List Glyph
  | [] => []
  | byte :: rest =>
    match firstChar? (byte :: rest) with
    | some c => .char c :: decode (rest.drop (c.utf8Size - 1))
    | none => .stray byte :: decode rest
  termination_by bytes => bytes.length
  decreasing_by all_goals simp; try omega

def encodeGlyph : Glyph → List UInt8
  | .char c => String.utf8EncodeChar c
  | .stray byte => [byte]

def encode (glyphs : List Glyph) : List UInt8 := glyphs.flatMap encodeGlyph

def encodeText (text : List Char) : List UInt8 := text.flatMap String.utf8EncodeChar

def decodeLossy (bytes : List UInt8) : List Char := (decode bytes).filterMap Character.char?

def decodeStrict? (bytes : List UInt8) : Option (List Char) := (decode bytes).mapM Character.char?

end Utf8

end EnvFill.Text
