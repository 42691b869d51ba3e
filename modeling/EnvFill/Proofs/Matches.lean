import EnvFill.Name.Basic
import Mathlib

/-!
# What an expression takes

The matches of an expression at a place are read off the expression, constructor by constructor, as
the pieces of text that it may take there. A search meets every place at which the expression
matches, provided that no match begins inside another.
-/

namespace EnvFill.Regex

open Text

variable {regex first second : Regex} {before : Option Char} {taken rest text : List Char}
  {captured : Option (List Char)} {accepts : Char → Bool} {found : Match}

/-- After `before`, the expression may take `taken` of a text that goes on with `rest`, and its group
captures `captured` then. -/
def Takes (regex : Regex) (before : Option Char) (taken rest : List Char)
    (captured : Option (List Char)) : Prop :=
  ∃ found ∈ regex.run before (taken ++ rest),
    found.rest = rest ∧ found.captured.map Capture.toList = captured

theorem exists_takes_of_mem_run (hfound : found ∈ regex.run before text) :
    ∃ taken, text = taken ++ found.rest ∧ found.size = taken.length ∧
      found.last = lastOr before taken ∧
        Takes regex before taken found.rest (found.captured.map Capture.toList) := by
  obtain ⟨taken, rfl, hsize, hlast⟩ := exists_append_of_mem_run hfound
  exact ⟨taken, rfl, hsize.symm, hlast, found, hfound, rfl, rfl⟩

theorem run_ne_nil_iff :
    regex.run before text ≠ [] ↔
      ∃ taken rest captured, text = taken ++ rest ∧ Takes regex before taken rest captured := by
  constructor
  · intro hrun
    obtain ⟨found, hfound⟩ := List.exists_mem_of_ne_nil _ hrun
    obtain ⟨taken, htext, -, -, htakes⟩ := exists_takes_of_mem_run hfound
    exact ⟨taken, found.rest, _, htext, htakes⟩
  · rintro ⟨taken, rest, captured, rfl, found, hfound, -⟩
    exact List.ne_nil_of_mem hfound

theorem takes_empty_iff :
    Takes .empty before taken rest captured ↔ taken = [] ∧ captured = none := by
  simp only [Takes, mem_run_empty_iff, exists_eq_left, List.append_left_eq_self, Option.map_none]
  exact and_congr_right fun _ => eq_comm

theorem takes_one_iff :
    Takes (.one accepts) before taken rest captured ↔
      ∃ c, accepts c = true ∧ taken = [c] ∧ captured = none := by
  simp only [Takes, mem_run_one_iff]
  constructor
  · rintro ⟨_, ⟨c, tail, htext, hc, rfl⟩, hrest, hcaptured⟩
    obtain rfl : tail = rest := hrest
    exact ⟨c, hc, List.append_cancel_right htext, hcaptured.symm⟩
  · rintro ⟨c, hc, rfl, rfl⟩
    exact ⟨_, ⟨c, rest, rfl, hc, rfl⟩, rfl, rfl⟩

theorem takes_many_iff :
    Takes (.many accepts) before taken rest captured ↔
      taken.all accepts = true ∧ captured = none := by
  simp only [Takes, mem_run_many_iff]
  constructor
  · rintro ⟨_, ⟨front, back, happend, hfront, rfl⟩, hrest, hcaptured⟩
    obtain rfl : back = rest := hrest
    rw [← List.append_cancel_right happend]
    exact ⟨hfront, hcaptured.symm⟩
  · rintro ⟨htaken, rfl⟩
    exact ⟨_, ⟨taken, rest, rfl, htaken, rfl⟩, rfl, rfl⟩

theorem takes_seq_iff :
    Takes (.seq first second) before taken rest captured ↔
      ∃ front back inFirst inSecond, taken = front ++ back ∧
        Takes first before front (back ++ rest) inFirst ∧
          Takes second (lastOr before front) back rest inSecond ∧
            captured = inSecond.or inFirst := by
  constructor
  · rintro ⟨found, hfound, hrest, hcaptured⟩
    obtain ⟨head, hhead, tail, htail, rfl⟩ := mem_run_seq_iff.mp hfound
    obtain rfl : tail.rest = rest := hrest
    obtain ⟨front, happend, -, hlast, hfirst⟩ := exists_takes_of_mem_run hhead
    obtain ⟨back, hback, -, -, hsecond⟩ := exists_takes_of_mem_run htail
    rw [hback] at happend hfirst
    rw [hlast] at hsecond
    refine ⟨front, back, _, _, ?_, hfirst, hsecond, ?_⟩
    · rw [← List.append_assoc] at happend
      exact List.append_cancel_right happend
    · rw [← hcaptured]
      exact Option.map_or
  · rintro ⟨front, back, inFirst, inSecond, rfl, ⟨head, hhead, hheadRest, rfl⟩,
      ⟨tail, htail, rfl, rfl⟩, rfl⟩
    have hlast : head.last = lastOr before front := by
      obtain ⟨front', happend, -, hlast⟩ := exists_append_of_mem_run hhead
      rw [hheadRest] at happend
      rw [hlast, List.append_cancel_right happend]
    refine ⟨_, mem_run_seq_iff.mpr ⟨head, ?_, tail, ?_, rfl⟩, rfl, Option.map_or⟩
    · rwa [List.append_assoc]
    · rwa [hlast, hheadRest]

theorem takes_alt_iff {left right : Regex} :
    Takes (.alt left right) before taken rest captured ↔
      Takes left before taken rest captured ∨ Takes right before taken rest captured := by
  simp only [Takes, mem_run_alt_iff, or_and_right, exists_or]

theorem takes_maybe_iff :
    Takes (maybe regex) before taken rest captured ↔
      Takes regex before taken rest captured ∨ taken = [] ∧ captured = none := by
  rw [maybe, takes_alt_iff, takes_empty_iff]

theorem takes_place_iff {holds : Option Char → List Char → Bool} :
    Takes (.place holds) before taken rest captured ↔
      holds before rest = true ∧ taken = [] ∧ captured = none := by
  simp only [Takes, mem_run_place_iff]
  constructor
  · rintro ⟨_, ⟨hholds, rfl⟩, hrest, hcaptured⟩
    obtain rfl := List.append_left_eq_self.mp hrest
    exact ⟨hholds, rfl, hcaptured.symm⟩
  · rintro ⟨hholds, rfl, rfl⟩
    exact ⟨_, ⟨hholds, rfl⟩, rfl, rfl⟩

theorem takes_group_iff :
    Takes (.group regex) before taken rest captured ↔
      (∃ inner, Takes regex before taken rest inner) ∧ captured = some taken := by
  constructor
  · rintro ⟨found, hfound, hrest, hcaptured⟩
    obtain ⟨inner, hinner, rfl⟩ := mem_run_group_iff.mp hfound
    obtain rfl : inner.rest = rest := hrest
    obtain ⟨front, happend, hsize, -, htakes⟩ := exists_takes_of_mem_run hinner
    obtain rfl := List.append_cancel_right happend
    refine ⟨⟨_, htakes⟩, ?_⟩
    rw [← hcaptured, Option.map_some, Capture.toList, hsize, List.take_left]
  · rintro ⟨⟨_, inner, hinner, rfl, -⟩, rfl⟩
    obtain ⟨front, happend, hsize, -, -⟩ := exists_takes_of_mem_run hinner
    obtain rfl := List.append_cancel_right happend
    refine ⟨_, mem_run_group_iff.mpr ⟨inner, hinner, rfl⟩, rfl, ?_⟩
    rw [Option.map_some, Capture.toList, hsize, List.take_left]

theorem takes_seq_empty_iff :
    Takes (.seq regex .empty) before taken rest captured ↔
      Takes regex before taken rest captured := by
  simp only [takes_seq_iff, takes_empty_iff]
  constructor
  · rintro ⟨front, _, inFirst, _, rfl, hfirst, ⟨rfl, rfl⟩, rfl⟩
    simpa using hfirst
  · intro htakes
    exact ⟨taken, [], captured, none, (List.append_nil _).symm, htakes, ⟨rfl, rfl⟩, rfl⟩

theorem takes_anyOf_iff {others : List Regex} :
    Takes (anyOf regex others) before taken rest captured ↔
      ∃ choice ∈ regex :: others, Takes choice before taken rest captured := by
  induction others generalizing regex with
  | nil => simp [anyOf]
  | cons next others ih =>
    rw [anyOf, takes_alt_iff, ih]
    simp only [List.mem_cons, exists_eq_or_imp]

section InOrder

variable {others : List Regex}

theorem takes_inOrder_nil_iff :
    Takes (inOrder []) before taken rest captured ↔ taken = [] ∧ captured = none :=
  takes_empty_iff

theorem takes_inOrder_cons_iff :
    Takes (inOrder (regex :: others)) before taken rest captured ↔
      Takes (.seq regex (inOrder others)) before taken rest captured := by
  cases others with
  | nil => exact takes_seq_empty_iff.symm
  | cons => exact Iff.rfl

theorem takes_inOrder_one_iff :
    Takes (inOrder (.one accepts :: others)) before taken rest captured ↔
      ∃ c back, accepts c = true ∧ taken = c :: back ∧
        Takes (inOrder others) (some c) back rest captured := by
  simp only [takes_inOrder_cons_iff, takes_seq_iff, takes_one_iff]
  constructor
  · rintro ⟨_, back, _, after, rfl, ⟨c, hc, rfl, rfl⟩, hafter, rfl⟩
    exact ⟨c, back, hc, rfl, by simpa using hafter⟩
  · rintro ⟨c, back, hc, rfl, hafter⟩
    exact ⟨[c], back, none, captured, rfl, ⟨c, hc, rfl, rfl⟩, hafter, by simp⟩

theorem takes_inOrder_many_iff :
    Takes (inOrder (.many accepts :: others)) before taken rest captured ↔
      ∃ front back, front.all accepts = true ∧ taken = front ++ back ∧
        Takes (inOrder others) (lastOr before front) back rest captured := by
  simp only [takes_inOrder_cons_iff, takes_seq_iff, takes_many_iff]
  constructor
  · rintro ⟨front, back, _, after, rfl, ⟨hfront, rfl⟩, hafter, rfl⟩
    exact ⟨front, back, hfront, rfl, by simpa using hafter⟩
  · rintro ⟨front, back, hfront, rfl, hafter⟩
    exact ⟨front, back, none, captured, rfl, ⟨hfront, rfl⟩, hafter, by simp⟩

theorem takes_inOrder_place_iff {holds : Option Char → List Char → Bool} :
    Takes (inOrder (.place holds :: others)) before taken rest captured ↔
      holds before (taken ++ rest) = true ∧
        Takes (inOrder others) before taken rest captured := by
  simp only [takes_inOrder_cons_iff, takes_seq_iff, takes_place_iff]
  constructor
  · rintro ⟨_, back, _, after, rfl, ⟨hholds, rfl, rfl⟩, hafter, rfl⟩
    exact ⟨hholds, by simpa using hafter⟩
  · rintro ⟨hholds, hafter⟩
    exact ⟨[], taken, none, captured, rfl, ⟨hholds, rfl, rfl⟩, hafter, by simp⟩

theorem takes_inOrder_group_iff :
    Takes (inOrder (.group regex :: others)) before taken rest captured ↔
      ∃ name back after, (∃ inner, Takes regex before name (back ++ rest) inner) ∧
        taken = name ++ back ∧ Takes (inOrder others) (lastOr before name) back rest after ∧
          captured = after.or (some name) := by
  simp only [takes_inOrder_cons_iff, takes_seq_iff, takes_group_iff]
  constructor
  · rintro ⟨name, back, _, after, rfl, ⟨hname, rfl⟩, hafter, rfl⟩
    exact ⟨name, back, after, hname, rfl, hafter, rfl⟩
  · rintro ⟨name, back, after, hname, rfl, hafter, rfl⟩
    exact ⟨name, back, some name, after, rfl, ⟨hname, rfl⟩, hafter, rfl⟩

/-- One character for each item. -/
theorem takes_inOrder_map_one_iff {α : Type} {accepts : α → Char → Bool} {items : List α} :
    Takes (inOrder (items.map fun item => .one (accepts item))) before taken rest captured ↔
      List.Forall₂ (fun item c => accepts item c = true) items taken ∧ captured = none := by
  induction items generalizing before taken captured with
  | nil => rw [List.map_nil, takes_inOrder_nil_iff, List.forall₂_nil_left_iff]
  | cons item items ih =>
    rw [List.map_cons, takes_inOrder_one_iff, List.forall₂_cons_left_iff]
    simp only [ih]
    constructor
    · rintro ⟨c, back, hc, rfl, hback, rfl⟩
      exact ⟨⟨c, back, hc, hback, rfl⟩, rfl⟩
    · rintro ⟨⟨c, back, hc, hback, rfl⟩, rfl⟩
      exact ⟨c, back, hc, rfl, hback, rfl⟩

theorem takes_inOrder_map_iff {word : List Char} :
    Takes (inOrder (word.map fun c => .one (· == c))) before taken rest captured ↔
      taken = word ∧ captured = none := by
  have hsame : (fun c d : Char => (d == c) = true) = Eq := by
    funext c d
    exact propext (beq_iff_eq.trans eq_comm)
  rw [takes_inOrder_map_one_iff, hsame, List.forall₂_eq_eq_eq, eq_comm]

def Spells (word : String) (text : List Char) : Prop :=
  List.Forall₂ (fun c d => sameLetter c d = true) word.toList text

theorem takes_literalAnyCase_iff {word : String} :
    Takes (literalAnyCase word) before taken rest captured ↔ Spells word taken ∧ captured = none :=
  takes_inOrder_map_one_iff

theorem takes_inOrder_literal_iff {word : String} :
    Takes (inOrder (literal word :: others)) before taken rest captured ↔
      ∃ back, taken = word.toList ++ back ∧
        Takes (inOrder others) (lastOr before word.toList) back rest captured := by
  simp only [takes_inOrder_cons_iff, takes_seq_iff, literal, takes_inOrder_map_iff]
  constructor
  · rintro ⟨_, back, _, after, rfl, ⟨rfl, rfl⟩, hafter, rfl⟩
    exact ⟨back, rfl, by simpa using hafter⟩
  · rintro ⟨back, rfl, hafter⟩
    exact ⟨word.toList, back, none, captured, rfl, ⟨rfl, rfl⟩, hafter, by simp⟩

end InOrder

theorem takes_oneOrMore_iff :
    Takes (oneOrMore accepts) before taken rest captured ↔
      taken ≠ [] ∧ taken.all accepts = true ∧ captured = none := by
  simp only [oneOrMore, takes_seq_iff, takes_one_iff, takes_many_iff]
  constructor
  · rintro ⟨_, back, _, _, rfl, ⟨c, hc, rfl, rfl⟩, ⟨hback, rfl⟩, rfl⟩
    exact ⟨by simp, by simpa [hc] using hback, rfl⟩
  · rintro ⟨hne, hall, rfl⟩
    obtain ⟨c, back, rfl⟩ := List.exists_cons_of_ne_nil hne
    rw [List.all_cons, Bool.and_eq_true] at hall
    exact ⟨[c], back, none, none, rfl, ⟨c, hall.1, rfl, rfl⟩, ⟨hall.2, rfl⟩, rfl⟩

/-- An expression occurs in a text if it takes a piece of it. -/
theorem occursIn_iff_takes :
    regex.occursIn text = true ↔
      ∃ front taken rest captured, text = front ++ (taken ++ rest) ∧
        Takes regex front.getLast? taken rest captured := by
  rw [occursIn_iff]
  simp only [run_ne_nil_iff]
  constructor
  · rintro ⟨front, _, rfl, taken, rest, captured, rfl, htakes⟩
    exact ⟨front, taken, rest, captured, rfl, htakes⟩
  · rintro ⟨front, taken, rest, captured, rfl, htakes⟩
    exact ⟨front, _, rfl, taken, rest, captured, rfl, htakes⟩

theorem exists_takes_of_matchAt? (hfound : regex.matchAt? before text = some found) :
    ∃ taken, text = taken ++ found.rest ∧ found.size = taken.length ∧
      found.last = lastOr before taken ∧
        Takes regex before taken found.rest (found.captured.map Capture.toList) :=
  exists_takes_of_mem_run (List.mem_of_head? hfound)

theorem exists_matchAt?_of_takes (htakes : Takes regex before taken rest captured) :
    ∃ found, regex.matchAt? before (taken ++ rest) = some found := by
  obtain ⟨found, hfound, -⟩ := htakes
  exact ⟨_, List.head?_eq_some_head (List.ne_nil_of_mem hfound)⟩

def IsSingle (regex : Regex) : Prop := ∀ before text, (regex.run before text).length ≤ 1

def IsGreedy (accepts : Char → Bool) (regex : Regex) : Prop :=
  ∀ before text found, regex.matchAt? before text = some found →
    found.rest.head?.any accepts = false

theorem isSingle_empty : IsSingle .empty := fun _ _ => Nat.le_refl 1

theorem isSingle_one (accepts : Char → Bool) : IsSingle (.one accepts) := by
  intro before text
  cases text with
  | nil => exact Nat.zero_le 1
  | cons c rest =>
    rw [run]
    split
    · exact Nat.le_refl 1
    · exact Nat.zero_le 1

theorem IsSingle.seq (hfirst : IsSingle first) (hsecond : IsSingle second) :
    IsSingle (.seq first second) := by
  intro before text
  rw [run]
  have hone := hfirst before text
  cases hrun : first.run before text with
  | nil => simp
  | cons head others =>
    rw [hrun, List.length_cons] at hone
    obtain rfl : others = [] := List.length_eq_zero_iff.mp (by omega)
    simpa using hsecond head.last head.rest

theorem isSingle_literal (word : String) : IsSingle (literal word) := by
  unfold literal
  induction word.toList with
  | nil => exact isSingle_empty
  | cons c word ih =>
    cases word with
    | nil => exact isSingle_one _
    | cons next word => exact (isSingle_one _).seq ih

theorem head?_manyFrom (accepts : Char → Bool) (size : Nat) (last : Option Char)
    (shorter : List Match) (text : List Char) :
    ∃ found, (manyFrom accepts size last shorter text).head? = some found ∧
      found.rest = text.dropWhile accepts := by
  induction text generalizing size last shorter with
  | nil => exact ⟨_, rfl, rfl⟩
  | cons c rest ih =>
    rw [manyFrom]
    split
    · rename_i hc
      rw [List.dropWhile_cons_of_pos hc]
      exact ih _ _ _
    · rename_i hc
      rw [List.dropWhile_cons_of_neg hc]
      exact ⟨_, rfl, rfl⟩

theorem isGreedy_many (accepts : Char → Bool) : IsGreedy accepts (.many accepts) := by
  intro before text found hfound
  obtain ⟨longest, hlongest, hrest⟩ := head?_manyFrom accepts 0 before [] text
  obtain rfl : longest = found := Option.some.inj (hlongest.symm.trans hfound)
  have hnot := List.head?_dropWhile_not accepts text
  rw [hrest]
  cases hhead : (text.dropWhile accepts).head? with
  | none => rfl
  | some c => simpa [hhead] using hnot

theorem IsGreedy.group (hregex : IsGreedy accepts regex) : IsGreedy accepts (.group regex) := by
  intro before text found hfound
  rw [matchAt?, run, List.head?_map] at hfound
  obtain ⟨inner, hinner, rfl⟩ := Option.map_eq_some_iff.mp hfound
  exact hregex before text inner hinner

theorem IsSingle.seq_isGreedy (hfirst : IsSingle first) (hsecond : IsGreedy accepts second) :
    IsGreedy accepts (.seq first second) := by
  intro before text found hfound
  have hone := hfirst before text
  rw [matchAt?, run] at hfound
  cases hrun : first.run before text with
  | nil => simp [hrun] at hfound
  | cons head others =>
    rw [hrun, List.length_cons] at hone
    obtain rfl : others = [] := List.length_eq_zero_iff.mp (by omega)
    rw [hrun, List.flatMap_singleton, List.head?_map] at hfound
    obtain ⟨tail, htail, rfl⟩ := Option.map_eq_some_iff.mp hfound
    exact hsecond head.last head.rest tail htail

theorem exists_matchAt?_of_mem_findAllFrom (hfound : found ∈ regex.findAllFrom before text) :
    ∃ front back, front ++ back = text ∧ regex.matchAt? (lastOr before front) back = some found := by
  fun_induction findAllFrom regex before text with
  | case1 before => exact ⟨[], [], rfl, Option.mem_toList.mp hfound⟩
  | case2 before c rest hnone ih =>
    obtain ⟨front, back, rfl, hmatch⟩ := ih hfound
    exact ⟨c :: front, back, rfl, by rwa [lastOr_cons]⟩
  | case3 before c rest best hbest hsize ih =>
    rcases List.mem_cons.mp hfound with rfl | hfound
    · exact ⟨[], c :: rest, rfl, hbest⟩
    · obtain ⟨front, back, rfl, hmatch⟩ := ih hfound
      exact ⟨c :: front, back, rfl, by rwa [lastOr_cons]⟩
  | case4 before c rest best hbest hsize ih =>
    rcases List.mem_cons.mp hfound with rfl | hfound
    · exact ⟨[], c :: rest, rfl, hbest⟩
    · obtain ⟨taken, htext, -, hlast, -⟩ := exists_takes_of_matchAt? hbest
      obtain ⟨front, back, happend, hmatch⟩ := ih hfound
      refine ⟨taken ++ front, back, ?_, ?_⟩
      · rw [List.append_assoc, happend, htext]
      · rwa [lastOr_append, ← hlast]

def IsApart (regex : Regex) : Prop :=
  ∀ before front back found, regex.matchAt? before (front ++ back) = some found → front ≠ [] →
    front.length < found.size → regex.matchAt? (lastOr before front) back = none

theorem IsApart.mem_findAllFrom (hapart : IsApart regex) {front back : List Char}
    (htext : front ++ back = text) (hmatch : regex.matchAt? (lastOr before front) back = some found) :
    found ∈ regex.findAllFrom before text := by
  fun_induction findAllFrom regex before text generalizing front with
  | case1 before =>
    obtain ⟨rfl, rfl⟩ := List.append_eq_nil_iff.mp htext
    exact Option.mem_toList.mpr hmatch
  | case2 before c rest hnone ih =>
    cases front with
    | nil =>
      rw [List.nil_append] at htext
      rw [← htext] at hnone
      exact absurd (hnone.symm.trans hmatch) (by simp)
    | cons d front =>
      obtain ⟨rfl, hrest⟩ := List.cons.inj htext
      exact ih hrest (by rwa [← lastOr_cons before])
  | case3 before c rest best hbest hsize ih =>
    cases front with
    | nil =>
      rw [List.nil_append] at htext
      rw [← htext] at hbest
      exact List.mem_cons.mpr (.inl (Option.some.inj (hmatch.symm.trans hbest)))
    | cons d front =>
      obtain ⟨rfl, hrest⟩ := List.cons.inj htext
      exact List.mem_cons_of_mem best (ih hrest (by rwa [← lastOr_cons before]))
  | case4 before c rest best hbest hsize ih =>
    by_cases hnil : front = []
    · subst hnil
      rw [List.nil_append] at htext
      rw [← htext] at hbest
      exact List.mem_cons.mpr (.inl (Option.some.inj (hmatch.symm.trans hbest)))
    obtain ⟨taken, happend, hlength, hlast, -⟩ := exists_takes_of_matchAt? hbest
    -- A match that begins before the best one ends would begin inside it.
    have hend : best.size ≤ front.length := by
      by_contra hinside
      rw [← htext] at hbest
      have hnone := hapart before front back best hbest hnil (by omega)
      exact absurd (hnone.symm.trans hmatch) (by simp)
    rw [hlength] at hend
    rw [happend] at htext
    obtain ⟨middle, rfl⟩ := List.prefix_of_prefix_length_le (List.prefix_append taken best.rest)
      (htext ▸ List.prefix_append front back) hend
    rw [List.append_assoc] at htext
    refine List.mem_cons_of_mem best (ih (List.append_cancel_left htext) ?_)
    rwa [hlast, ← lastOr_append]

end EnvFill.Regex
