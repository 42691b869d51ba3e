import EnvFill.Text.Character

/-!
Blank characters, and the removal of blanks at both ends of a text.
-/

namespace EnvFill.Text

/-- The blank characters: tabs, line ends, separators and spaces. Characters without width, such
as U+200B and U+FEFF, are not blank. -/
def isBlank (c : Char) : Bool :=
  let n := c.toNat
  (0x09 ≤ n && n ≤ 0x0D) || (0x1C ≤ n && n ≤ 0x20) || n == 0x85 || n == 0xA0 || n == 0x1680 ||
    (0x2000 ≤ n && n ≤ 0x200A) || n == 0x2028 || n == 0x2029 || n == 0x202F || n == 0x205F ||
    n == 0x3000

/-- Removes the longest end of the list whose members all satisfy `p`. -/
def dropEndWhile {α : Type} (p : α → Bool) (text : List α) : List α :=
  (text.reverse.dropWhile p).reverse

variable {α : Type} [Character α]

def strip (text : List α) : List α :=
  dropEndWhile (Character.satisfies isBlank) (text.dropWhile (Character.satisfies isBlank))

def isAllBlank (text : List α) : Bool := text.all (Character.satisfies isBlank)

theorem dropWhile_eq_nil_iff_forall {β : Type} {p : β → Bool} {text : List β} :
    text.dropWhile p = [] ↔ ∀ a ∈ text, p a = true := by
  induction text with
  | nil => simp
  | cons a rest ih => by_cases h : p a = true <;> simp [h, ih]

theorem dropEndWhile_eq_nil_iff {β : Type} {p : β → Bool} {text : List β} :
    dropEndWhile p text = [] ↔ ∀ a ∈ text, p a = true := by
  rw [dropEndWhile, List.reverse_eq_nil_iff, dropWhile_eq_nil_iff_forall]
  simp

theorem strip_eq_nil_iff {text : List α} : strip text = [] ↔ isAllBlank text = true := by
  unfold strip isAllBlank
  rw [dropEndWhile_eq_nil_iff, List.all_eq_true]
  constructor
  · intro h a ha
    rw [← List.takeWhile_append_dropWhile (p := Character.satisfies isBlank) (l := text)] at ha
    rcases List.mem_append.1 ha with ha | ha
    · exact (List.all_eq_true.1 List.all_takeWhile) a ha
    · exact h a ha
  · intro h a ha
    exact h a (List.dropWhile_sublist _ |>.subset ha)

end EnvFill.Text
