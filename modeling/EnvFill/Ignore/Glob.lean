import EnvFill.Regex.Occurrence
import EnvFill.Text.Lines

/-!
One component of an ignore pattern: `*` stands for any run of characters within a component, `?` for
one of them, a bracket expression for one character of a set, and a backslash takes the next
character as it is.
-/

namespace EnvFill.Ignore

open Text

inductive Fault where
  /-- It ends in a backslash that takes no character. -/
  | loneBackslash
  /-- A bracket is not closed. -/
  | openBracket
  /-- A range in brackets ends before it begins. -/
  | badRange (low high : Char)
  deriving DecidableEq, Repr

/-- The ranges of a bracket expression. A hyphen between two characters makes a range of them. -/
def bracketRanges : List Char → List (Char × Char)
  | [] => []
  | low :: '-' :: high :: rest => (low, high) :: bracketRanges rest
  | c :: rest => (c, c) :: bracketRanges rest

structure CharSet where
  negated : Bool
  ranges : List (Char × Char)
  deriving DecidableEq, Repr

def CharSet.contains (set : CharSet) (c : Char) : Bool :=
  (set.ranges.any fun range => range.1 ≤ c && c ≤ range.2) != set.negated

/-- What stands in brackets up to the closing one, and what follows. A closing bracket that comes
first is a member. -/
def cutBracket? : List Char → Option (List Char × List Char)
  | ']' :: rest => (cutAtFirst (· == ']') rest).map fun (members, after) => (']' :: members, after)
  | text => cutAtFirst (· == ']') text

def members? (negated : Bool) (text : List Char) : Option (CharSet × List Char) :=
  (cutBracket? text).map fun (members, after) => (⟨negated, bracketRanges members⟩, after)

def charSet? : List Char → Option (CharSet × List Char)
  | '!' :: rest => members? true rest
  | '^' :: rest => members? true rest
  | text => members? false text

theorem length_of_cutBracket? {text members after : List Char}
    (h : cutBracket? text = some (members, after)) : after.length < text.length := by
  unfold cutBracket? at h
  split at h
  · obtain ⟨⟨before, rest⟩, hcut, heq⟩ := Option.map_eq_some_iff.1 h
    have := length_of_cutAtFirst hcut
    simp only [Prod.mk.injEq] at heq
    simp only [List.length_cons, ← heq.2]
    omega
  · exact length_of_cutAtFirst h

theorem length_of_charSet? {text after : List Char} {set : CharSet}
    (h : charSet? text = some (set, after)) : after.length < text.length := by
  unfold charSet? members? at h
  split at h <;>
  · obtain ⟨⟨members, rest⟩, hcut, heq⟩ := Option.map_eq_some_iff.1 h
    have := length_of_cutBracket? hcut
    simp only [Prod.mk.injEq] at heq
    simp only [List.length_cons, ← heq.2]
    omega

def notSlash (c : Char) : Bool := c != '/'

def glob? : List Char → Except Fault Regex
  | [] => .ok .empty
  | ['\\'] => .error .loneBackslash
  | '\\' :: c :: rest => (glob? rest).map (.seq (.one (· == c)))
  | '*' :: rest => (glob? rest).map (.seq (.many notSlash))
  | '?' :: rest => (glob? rest).map (.seq (.one notSlash))
  | '[' :: rest =>
    match _hset : charSet? rest with
    | none => .error .openBracket
    | some (set, after) => (glob? after).map (.seq (.one set.contains))
  | c :: rest => (glob? rest).map (.seq (.one (· == c)))
  termination_by text => text.length
  decreasing_by
    all_goals simp only [List.length_cons]
    all_goals try have := length_of_charSet? _hset
    all_goals omega

def rangesIn : List Char → List (Char × Char)
  | [] => []
  | ['\\'] => []
  | '\\' :: _ :: rest => rangesIn rest
  | '[' :: rest =>
    match _hset : charSet? rest with
    | none => []
    | some (set, after) => set.ranges ++ rangesIn after
  | _ :: rest => rangesIn rest
  termination_by text => text.length
  decreasing_by
    all_goals simp only [List.length_cons]
    all_goals try have := length_of_charSet? _hset
    all_goals omega

def reversedRange? (ranges : List (Char × Char)) : Option (Char × Char) :=
  ranges.find? fun range => range.2 < range.1

/-- Where neither reading of a backslash applies, what is read begins with another character. -/
theorem ne_backslash_of_reads {c : Char} {component : List Char}
    (hlone : c = '\\' → component = [] → False)
    (hescape : ∀ d rest, c = '\\' → component = d :: rest → False) : c ≠ '\\' := by
  rintro rfl
  cases component with
  | nil => exact hlone rfl rfl
  | cons d rest => exact hescape d rest rfl rfl

end EnvFill.Ignore
