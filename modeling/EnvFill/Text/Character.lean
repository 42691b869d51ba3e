/-!
Alphabets that contain the characters. A line of settings is read in the same way whether it comes
from text that was decoded without loss or with stray bytes left in it, so its grammar is written
over any such alphabet. Sets of characters are given by ranges of code points, as the properties of
the Unicode character database are tabulated.
-/

namespace EnvFill.Text

class Character (α : Type) where
  ofChar : Char → α
  char? : α → Option Char
  char?_eq_some_iff : ∀ {a : α} {c : Char}, char? a = some c ↔ a = ofChar c

namespace Character

variable {α : Type} [Character α]

def is (c : Char) (a : α) : Bool := char? a == some c

/-- A letter of the alphabet that is a character with the property `p`. -/
def satisfies (p : Char → Bool) (a : α) : Bool := (char? a).any p

@[simp]
theorem char?_ofChar (c : Char) : char? (ofChar c : α) = some c := char?_eq_some_iff.2 rfl

@[simp]
theorem is_ofChar (c d : Char) : is c (ofChar d : α) = (d == c) := by
  simp [is]

@[simp]
theorem satisfies_ofChar (p : Char → Bool) (c : Char) : satisfies p (ofChar c : α) = p c := by
  simp [satisfies]

theorem eq_ofChar_of_is {c : Char} {a : α} (h : is c a = true) : a = ofChar c :=
  char?_eq_some_iff.1 (by simpa [is] using h)

end Character

/-- Text itself. -/
instance : Character Char where
  ofChar := id
  char? := some
  char?_eq_some_iff := by simp

abbrev CharRanges := List (Nat × Nat)

/-- Whether the code point of `c` lies in one of the ranges. -/
def CharRanges.contains (ranges : CharRanges) (c : Char) : Bool :=
  ranges.any fun range => range.1 ≤ c.toNat && c.toNat ≤ range.2

end EnvFill.Text
