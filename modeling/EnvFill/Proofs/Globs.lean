import EnvFill.Ignore.Pattern
import EnvFill.Proofs.Lines
import EnvFill.Proofs.Matches
import EnvFill.Proofs.Results

/-!
# What one component matches

A component of an ignore pattern is read as a relation between its characters and the texts that it
stands for, and its expression takes exactly these.
-/

namespace EnvFill.Ignore

open Regex Text

variable {before : Option Char} {taken rest component text : List Char} {c : Char}
  {captured : Option (List Char)} {regex : Regex}

def specials : List Char := ['\\', '*', '?', '[']

inductive Stands : List Char → List Char → Prop where
  | nil : Stands [] []
  | escaped (c : Char) {component text : List Char} (hrest : Stands component text) :
      Stands ('\\' :: c :: component) (c :: text)
  | star {front component text : List Char} (hfront : front.all notSlash = true)
      (hrest : Stands component text) : Stands ('*' :: component) (front ++ text)
  | any {c : Char} {component text : List Char} (hc : notSlash c = true)
      (hrest : Stands component text) : Stands ('?' :: component) (c :: text)
  | set {c : Char} {component after text : List Char} {set : CharSet}
      (hset : charSet? component = some (set, after)) (hc : set.contains c = true)
      (hrest : Stands after text) : Stands ('[' :: component) (c :: text)
  | char {c : Char} {component text : List Char} (hc : c ∉ specials)
      (hrest : Stands component text) : Stands (c :: component) (c :: text)

/-! ### How a component begins -/

theorem stands_nil_iff : Stands [] text ↔ text = [] := by
  constructor
  · rintro ⟨⟩
    rfl
  · rintro rfl
    exact .nil

theorem stands_escaped_iff :
    Stands ('\\' :: c :: component) text ↔ ∃ back, text = c :: back ∧ Stands component back := by
  constructor
  · intro hstands
    cases hstands with
    | escaped _ hrest => exact ⟨_, rfl, hrest⟩
    | char hc => simp [specials] at hc
  · rintro ⟨back, rfl, hrest⟩
    exact .escaped c hrest

theorem stands_star_iff :
    Stands ('*' :: component) text ↔
      ∃ front back, front.all notSlash = true ∧ text = front ++ back ∧ Stands component back := by
  constructor
  · intro hstands
    cases hstands with
    | star hfront hrest => exact ⟨_, _, hfront, rfl, hrest⟩
    | char hc => simp [specials] at hc
  · rintro ⟨front, back, hfront, rfl, hrest⟩
    exact .star hfront hrest

theorem stands_any_iff :
    Stands ('?' :: component) text ↔
      ∃ d back, notSlash d = true ∧ text = d :: back ∧ Stands component back := by
  constructor
  · intro hstands
    cases hstands with
    | any hd hrest => exact ⟨_, _, hd, rfl, hrest⟩
    | char hc => simp [specials] at hc
  · rintro ⟨d, back, hd, rfl, hrest⟩
    exact .any hd hrest

theorem stands_set_iff {set : CharSet} {after : List Char}
    (hset : charSet? component = some (set, after)) :
    Stands ('[' :: component) text ↔
      ∃ d back, set.contains d = true ∧ text = d :: back ∧ Stands after back := by
  constructor
  · intro hstands
    cases hstands with
    | set hother hd hrest =>
      obtain ⟨rfl, rfl⟩ := Prod.mk.inj (Option.some.inj (hset.symm.trans hother))
      exact ⟨_, _, hd, rfl, hrest⟩
    | char hc => simp [specials] at hc
  · rintro ⟨d, back, hd, rfl, hrest⟩
    exact .set hset hd hrest

theorem stands_char_iff (hc : c ∉ specials) :
    Stands (c :: component) text ↔ ∃ back, text = c :: back ∧ Stands component back := by
  constructor
  · intro hstands
    cases hstands with
    | char _ hrest => exact ⟨_, rfl, hrest⟩
    | escaped => exact absurd (by decide) hc
    | star => exact absurd (by decide) hc
    | any => exact absurd (by decide) hc
    | set => exact absurd (by decide) hc
  · rintro ⟨back, rfl, hrest⟩
    exact .char hc hrest

theorem takes_seq_one_iff {accepts : Char → Bool} :
    Takes (.seq (.one accepts) regex) before taken rest captured ↔
      ∃ c back, accepts c = true ∧ taken = c :: back ∧
        Takes regex (some c) back rest captured :=
  @takes_inOrder_one_iff before taken rest captured accepts [regex]

theorem takes_seq_char_iff :
    Takes (.seq (.one (· == c)) regex) before taken rest captured ↔
      ∃ back, taken = c :: back ∧ Takes regex (some c) back rest captured := by
  rw [takes_seq_one_iff, exists_comm]
  simp only [beq_iff_eq, exists_eq_left]

theorem takes_seq_many_iff {accepts : Char → Bool} :
    Takes (.seq (.many accepts) regex) before taken rest captured ↔
      ∃ front back, front.all accepts = true ∧ taken = front ++ back ∧
        Takes regex (lastOr before front) back rest captured :=
  @takes_inOrder_many_iff before taken rest captured accepts [regex]

/-- A component stands for exactly what its expression takes. -/
theorem takes_glob?_iff (hglob : glob? component = .ok regex) :
    Takes regex before taken rest captured ↔ Stands component taken ∧ captured = none := by
  -- by the recursion of the reader: each of its cases is one way for a component to begin
  fun_induction glob? component generalizing regex before taken captured with
  | case1 =>
    obtain rfl := Except.ok.inj hglob
    rw [takes_empty_iff, stands_nil_iff]
  | case2 => simp at hglob
  | case3 c component ih =>
    obtain ⟨later, hlater, rfl⟩ := except_map_eq_ok_iff.mp hglob
    simp only [takes_seq_char_iff, ih hlater, stands_escaped_iff, exists_and_right, ← and_assoc]
  | case4 component ih =>
    obtain ⟨later, hlater, rfl⟩ := except_map_eq_ok_iff.mp hglob
    simp only [takes_seq_many_iff, ih hlater, stands_star_iff, exists_and_right, ← and_assoc]
  | case5 component ih =>
    obtain ⟨later, hlater, rfl⟩ := except_map_eq_ok_iff.mp hglob
    simp only [takes_seq_one_iff, ih hlater, stands_any_iff, exists_and_right, ← and_assoc]
  | case6 component hset => simp at hglob
  | case7 component set after hset ih =>
    obtain ⟨later, hlater, rfl⟩ := except_map_eq_ok_iff.mp hglob
    simp only [takes_seq_one_iff, ih hlater, stands_set_iff hset, exists_and_right, ← and_assoc]
  | case8 c component hlone hescape hstar hany hbracket ih =>
    obtain ⟨later, hlater, rfl⟩ := except_map_eq_ok_iff.mp hglob
    have hc : c ∉ specials := by
      simp only [specials, List.mem_cons, List.not_mem_nil, or_false, not_or]
      exact ⟨ne_backslash_of_reads hlone hescape, hstar, hany, hbracket⟩
    simp only [takes_seq_char_iff, ih hlater, stands_char_iff hc, exists_and_right, ← and_assoc]

/-- Without brackets a component stands for no text with a slash. -/
theorem Stands.slash_not_mem (hstands : Stands component text) (hslash : '/' ∉ component)
    (hbracket : '[' ∉ component) : '/' ∉ text := by
  induction hstands with
  | nil => exact List.not_mem_nil
  | escaped c _ ih =>
    simp only [List.mem_cons, not_or] at hslash hbracket ⊢
    exact ⟨hslash.2.1, ih hslash.2.2 hbracket.2.2⟩
  | star hfront _ ih =>
    rw [List.mem_cons, not_or] at hslash hbracket
    rw [List.mem_append, not_or]
    refine ⟨fun hmem => ?_, ih hslash.2 hbracket.2⟩
    simpa [notSlash] using List.all_eq_true.mp hfront '/' hmem
  | any hc _ ih =>
    rw [List.mem_cons, not_or] at hslash hbracket ⊢
    refine ⟨?_, ih hslash.2 hbracket.2⟩
    rintro rfl
    simp [notSlash] at hc
  | set => simp at hbracket
  | char _ _ ih =>
    rw [List.mem_cons, not_or] at hslash hbracket ⊢
    exact ⟨hslash.1, ih hslash.2 hbracket.2⟩

/-- A component that stands for the empty text has nothing but stars, and stands for more. -/
theorem Stands.of_nil (hstands : Stands component []) (hne : component ≠ [])
    (htext : text.all notSlash = true) : Stands component text := by
  generalize hnil : ([] : List Char) = empty at hstands
  cases hstands with
  | nil => exact absurd rfl hne
  | star hfront hrest =>
    obtain ⟨rfl, rfl⟩ := List.append_eq_nil_iff.mp hnil.symm
    simpa using Stands.star htext hrest
  | escaped => simp at hnil
  | any => simp at hnil
  | set => simp at hnil
  | char => simp at hnil

end EnvFill.Ignore
