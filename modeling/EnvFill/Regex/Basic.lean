import EnvFill.Text.Lower
import EnvFill.Text.Word

/-!
Regular expressions with a preference among their matches. `Regex.run` lists all matches at one
place of a text, best first: a repetition prefers to take more, and an alternative its left side.
Repetition is of single characters only, so every expression has finitely many matches at a place.
`exists_append_of_mem_run` says that a match splits the text, and `findAll` goes on after it.
-/

namespace EnvFill

open Text

inductive Regex where
  /-- Matches without taking anything. -/
  | empty
  /-- One character with the given property. -/
  | one (accepts : Char → Bool)
  /-- As many characters with the given property as possible. -/
  | many (accepts : Char → Bool)
  | seq (first second : Regex)
  | alt (left right : Regex)
  /-- A place with the given property, which is one of the character before it, if there is one, and
  of the text after it. -/
  | place (holds : Option Char → List Char → Bool)
  /-- Captures what the body takes. -/
  | group (body : Regex)

namespace Regex

/-- A captured piece of text: so many characters of what begins at some place. -/
structure Capture where
  text : List Char
  size : Nat

def Capture.toList (capture : Capture) : List Char := capture.text.take capture.size

/-- A match: how many characters it took, the character before what follows, what follows, and what
its group captured last. -/
structure Match where
  size : Nat
  last : Option Char
  rest : List Char
  captured : Option Capture

def Match.append (first second : Match) : Match where
  size := first.size + second.size
  last := second.last
  rest := second.rest
  captured := second.captured.or first.captured

/-- The matches of a repetition that has taken `size` characters, longest first, and then those that
took less. -/
def manyFrom (accepts : Char → Bool) (size : Nat) (last : Option Char) (shorter : List Match) :
    List Char → List Match
  | [] => ⟨size, last, [], none⟩ :: shorter
  | c :: rest =>
    let found := ⟨size, last, c :: rest, none⟩ :: shorter
    if accepts c then manyFrom accepts (size + 1) (some c) found rest else found

/-- The matches at the beginning of `text`, best first. `before` is the character before that place;
there is none at the beginning of the whole text. -/
def run : Regex → Option Char → List Char → List Match
  | .empty, before, text => [⟨0, before, text, none⟩]
  | .one _, _, [] => []
  | .one accepts, _, c :: rest => if accepts c then [⟨1, some c, rest, none⟩] else []
  | .many accepts, before, text => manyFrom accepts 0 before [] text
  | .seq first second, before, text =>
    (first.run before text).flatMap fun head => (second.run head.last head.rest).map head.append
  | .alt left right, before, text => left.run before text ++ right.run before text
  | .place holds, before, text => if holds before text then [⟨0, before, text, none⟩] else []
  | .group body, before, text =>
    (body.run before text).map fun found => { found with captured := some ⟨text, found.size⟩ }

def matchAt? (regex : Regex) (before : Option Char) (text : List Char) : Option Match :=
  (regex.run before text).head?

def lastOr (before : Option Char) (text : List Char) : Option Char := text.getLast?.or before

@[simp]
theorem lastOr_nil (before : Option Char) : lastOr before [] = before := rfl

@[simp]
theorem lastOr_singleton (before : Option Char) (c : Char) : lastOr before [c] = some c := rfl

theorem lastOr_append (before : Option Char) (front back : List Char) :
    lastOr before (front ++ back) = lastOr (lastOr before front) back := by
  rcases List.eq_nil_or_concat back with rfl | ⟨back, c, rfl⟩
  · simp [lastOr]
  · simp [lastOr]

theorem lastOr_cons (before : Option Char) (c : Char) (text : List Char) :
    lastOr before (c :: text) = lastOr (some c) text :=
  lastOr_append before [c] text

/-! ### The matches at one place, for each kind of expression -/

section Matches

variable {regex first second left right body : Regex} {accepts : Char → Bool}
  {holds : Option Char → List Char → Bool} {before : Option Char} {text : List Char} {found : Match}

/-- Leading characters with the property are none at all, or the first one and leading ones of the
rest. -/
theorem exists_leading_cons_iff {c : Char} {P : List Char → List Char → Prop} :
    (∃ taken rest, taken ++ rest = c :: text ∧ taken.all accepts = true ∧ P taken rest) ↔
      P [] (c :: text) ∨ accepts c = true ∧
        ∃ taken rest, taken ++ rest = text ∧ taken.all accepts = true ∧ P (c :: taken) rest := by
  constructor
  · rintro ⟨taken, rest, happend, hall, hP⟩
    cases taken with
    | nil =>
      obtain rfl : rest = c :: text := happend
      exact .inl hP
    | cons d taken =>
      obtain ⟨rfl, rfl⟩ := List.cons.inj happend
      rw [List.all_cons, Bool.and_eq_true] at hall
      exact .inr ⟨hall.1, taken, rest, rfl, hall.2, hP⟩
  · rintro (hP | ⟨hc, taken, rest, rfl, hall, hP⟩)
    · exact ⟨[], _, rfl, rfl, hP⟩
    · refine ⟨c :: taken, rest, rfl, ?_, hP⟩
      rw [List.all_cons, hc, hall, Bool.and_self]

/-- A repetition takes any leading characters with the property. -/
theorem mem_manyFrom {size : Nat} {shorter : List Match} :
    found ∈ manyFrom accepts size before shorter text ↔
      found ∈ shorter ∨ ∃ taken rest, taken ++ rest = text ∧ taken.all accepts = true ∧
        found = ⟨size + taken.length, lastOr before taken, rest, none⟩ := by
  induction text generalizing size before shorter with
  | nil =>
    simp only [manyFrom, List.mem_cons, List.append_eq_nil_iff]
    constructor
    · rintro (rfl | h)
      · exact .inr ⟨[], [], ⟨rfl, rfl⟩, rfl, rfl⟩
      · exact .inl h
    · rintro (h | ⟨taken, rest, ⟨rfl, rfl⟩, -, rfl⟩)
      · exact .inr h
      · exact .inl rfl
  | cons c text ih =>
    rw [exists_leading_cons_iff, or_left_comm]
    by_cases hc : accepts c = true
    · have hsize (taken : List Char) :
          size + (c :: taken).length = size + 1 + taken.length := by
        rw [List.length_cons]
        omega
      rw [manyFrom, if_pos hc, ih, List.mem_cons, or_assoc]
      simp only [hc, true_and, hsize, lastOr_cons, List.length_nil, Nat.add_zero, lastOr_nil]
    · rw [manyFrom, if_neg hc, List.mem_cons]
      simp only [hc, false_and, or_false, Bool.false_eq_true, List.length_nil, Nat.add_zero,
        lastOr_nil]

theorem mem_run_empty_iff : found ∈ run .empty before text ↔ found = ⟨0, before, text, none⟩ :=
  List.mem_singleton

theorem mem_run_one_iff :
    found ∈ run (.one accepts) before text ↔
      ∃ c rest, text = c :: rest ∧ accepts c = true ∧ found = ⟨1, some c, rest, none⟩ := by
  cases text with
  | nil => simp [run]
  | cons c rest =>
    unfold run
    split
    · next hc =>
      rw [List.mem_singleton]
      constructor
      · rintro rfl
        exact ⟨c, rest, rfl, hc, rfl⟩
      · rintro ⟨_, _, ⟨⟩, -, rfl⟩
        rfl
    · next hc =>
      refine iff_of_false List.not_mem_nil ?_
      rintro ⟨_, _, ⟨⟩, htrue, -⟩
      exact hc htrue

theorem mem_run_many_iff :
    found ∈ run (.many accepts) before text ↔
      ∃ taken rest, taken ++ rest = text ∧ taken.all accepts = true ∧
        found = ⟨taken.length, lastOr before taken, rest, none⟩ := by
  rw [run, mem_manyFrom]
  simp only [List.not_mem_nil, false_or, Nat.zero_add]

theorem mem_run_seq_iff :
    found ∈ run (.seq first second) before text ↔
      ∃ head ∈ first.run before text, ∃ tail ∈ second.run head.last head.rest,
        found = head.append tail := by
  simp only [run, List.mem_flatMap, List.mem_map, eq_comm]

theorem mem_run_alt_iff :
    found ∈ run (.alt left right) before text ↔
      found ∈ left.run before text ∨ found ∈ right.run before text :=
  List.mem_append

theorem mem_run_place_iff :
    found ∈ run (.place holds) before text ↔
      holds before text = true ∧ found = ⟨0, before, text, none⟩ := by
  unfold run
  split
  · next hholds => simp [hholds]
  · next hholds => simp [hholds]

theorem mem_run_group_iff :
    found ∈ run (.group body) before text ↔
      ∃ inner ∈ body.run before text,
        found = { inner with captured := some ⟨text, inner.size⟩ } := by
  simp only [run, List.mem_map, eq_comm]

/-- A match splits the text: what it took, and what follows. -/
theorem exists_append_of_mem_run (h : found ∈ regex.run before text) :
    ∃ taken, taken ++ found.rest = text ∧ taken.length = found.size ∧
      found.last = lastOr before taken := by
  induction regex generalizing before text found with
  | empty =>
    obtain rfl := mem_run_empty_iff.1 h
    exact ⟨[], rfl, rfl, rfl⟩
  | one accepts =>
    obtain ⟨c, rest, rfl, -, rfl⟩ := mem_run_one_iff.1 h
    exact ⟨[c], rfl, rfl, rfl⟩
  | many accepts =>
    obtain ⟨taken, rest, rfl, -, rfl⟩ := mem_run_many_iff.1 h
    exact ⟨taken, rfl, rfl, rfl⟩
  | seq first second ihFirst ihSecond =>
    obtain ⟨head, hhead, tail, htail, rfl⟩ := mem_run_seq_iff.1 h
    obtain ⟨front, hfront, hfrontSize, hfrontLast⟩ := ihFirst hhead
    obtain ⟨back, hback, hbackSize, hbackLast⟩ := ihSecond htail
    refine ⟨front ++ back, ?_, ?_, ?_⟩
    · simp [Match.append, hback, hfront]
    · simp [Match.append, hfrontSize, hbackSize]
    · simp [Match.append, lastOr_append, hbackLast, hfrontLast]
  | alt left right ihLeft ihRight =>
    rcases mem_run_alt_iff.1 h with h | h
    · exact ihLeft h
    · exact ihRight h
  | place holds =>
    obtain ⟨-, rfl⟩ := mem_run_place_iff.1 h
    exact ⟨[], rfl, rfl, rfl⟩
  | group body ih =>
    obtain ⟨inner, hinner, rfl⟩ := mem_run_group_iff.1 h
    exact (ih hinner :)

end Matches

/-- What follows a match that takes something is shorter. -/
theorem length_rest_of_matchAt? {regex : Regex} {before : Option Char} {text : List Char}
    {found : Match} (h : regex.matchAt? before text = some found) (hsize : found.size ≠ 0) :
    found.rest.length < text.length := by
  obtain ⟨taken, rfl, htaken, -⟩ := exists_append_of_mem_run (List.mem_of_head? h)
  rw [List.length_append]
  omega

/-- The matches from left to right, each beginning where the one before it ended or later. After a
match that takes nothing the search goes on one character further. -/
def findAllFrom (regex : Regex) (before : Option Char) (text : List Char) : List Match :=
  match text with
  | [] => (regex.matchAt? before []).toList
  | c :: rest =>
    match _h : regex.matchAt? before (c :: rest) with
    | none => findAllFrom regex (some c) rest
    | some found =>
      if _hsize : found.size = 0 then found :: findAllFrom regex (some c) rest
      else found :: findAllFrom regex found.last found.rest
  termination_by text.length
  decreasing_by
    · simp
    · simp
    · exact length_rest_of_matchAt? _h _hsize

def findAll (regex : Regex) (text : List Char) : List Match := regex.findAllFrom none text

def start : Regex := .place fun before _ => before.isNone

/-- The end of the text, or the place before a line feed that ends it. -/
def stop : Regex := .place fun _ text => text.isEmpty || text == ['\n']

def wordEdge : Regex := .place fun before text => before.any isWord != text.head?.any isWord

def inOrder : List Regex → Regex
  | [] => .empty
  | [regex] => regex
  | regex :: rest => .seq regex (inOrder rest)

/-- Any of the expressions, the earlier the better. The first is given apart, so that there is one.
-/
def anyOf : Regex → List Regex → Regex
  | regex, [] => regex
  | regex, next :: rest => .alt regex (anyOf next rest)

def maybe (regex : Regex) : Regex := .alt regex .empty

def oneOrMore (accepts : Char → Bool) : Regex := .seq (.one accepts) (.many accepts)

def literal (text : String) : Regex := inOrder (text.toList.map fun c => .one (· == c))

def literalAnyCase (text : String) : Regex :=
  inOrder (text.toList.map fun c => .one (sameLetter c))

end Regex

end EnvFill
