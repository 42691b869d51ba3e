import EnvFill.Proofs.FoundNames

/-!
# Captured names

A search from left to right passes over places inside its matches. No rule has a match there, so the
search captures what the rule captures at all places of the text, and a reference is found whatever
lines stand above and below it.
-/

namespace EnvFill.Name

open Regex Text

variable {rule : Rule} {form : Form} {before before' : Option Char} {text taken rest above below : List Char}
  {name : String}

def Rule.Captures (rule : Rule) (text : List Char) (name : String) : Prop :=
  ∃ front back found, front ++ back = text ∧ rule.regex.matchAt? front.getLast? back = some found ∧
    found.captured.map Capture.toList = some name.toList

theorem Rule.captures_iff : rule.Captures text name ↔
    ∃ front back found, front ++ back = text ∧ rule.regex.matchAt? (lastOr none front) back = some found ∧
      found.captured.map (fun capture => String.ofList capture.toList) = some name := by
  have hplace : ∀ front : List Char, lastOr none front = front.getLast? := by simp [lastOr]
  have hname : ∀ captured : Option Capture, captured.map Capture.toList = some name.toList ↔
      captured.map (fun capture => String.ofList capture.toList) = some name := by
    intro captured
    rw [Option.map_eq_some_iff, Option.map_eq_some_iff]
    refine exists_congr fun capture => and_congr_right fun _ => ?_
    exact ⟨fun hchars => by rw [hchars, String.ofList_toList],
      fun hchars => by rw [← hchars, String.toList_ofList]⟩
  simp only [Captures, hplace, hname]

theorem mem_extract_iff_captures (hrule : rule ∈ rules) :
    name ∈ rule.extract text ↔ rule.Captures text name := by
  obtain ⟨form, hclear, hform⟩ := exists_form_of_mem_rules hrule
  rw [Rule.extract, List.mem_filterMap, Rule.captures_iff]
  constructor
  · rintro ⟨found, hfound, hname⟩
    obtain ⟨front, back, htext, hmatch⟩ := exists_matchAt?_of_mem_findAllFrom hfound
    exact ⟨front, back, found, htext, hmatch, hname⟩
  · rintro ⟨front, back, found, htext, hmatch, hname⟩
    exact ⟨found, (hform.isApart hclear).mem_findAllFrom htext hmatch, hname⟩

theorem isCandidate_iff : isCandidate name = true ↔ name ∉ reserved ∧ 3 ≤ name.length := by
  rw [isCandidate, Bool.and_eq_true, Bool.not_eq_true', List.contains_eq_mem, decide_eq_false_iff_not,
    decide_eq_true_iff]
  exact Iff.rfl

theorem Form.Refers.infix_of_append (hrefers : form.Refers before rest name.toList taken)
    (front : List Char) : name.toList <:+: front ++ (taken ++ rest) := by
  obtain ⟨gap, opening, closing, -, -, -, -, -, -, -, -, -⟩ := hrefers
  exact ⟨front ++ (form.marker ++ (gap ++ opening)), closing ++ rest, by simp⟩

theorem infix_of_mem_candidates (hname : name ∈ candidates text) : name.toList <:+: text := by
  obtain ⟨⟨rule, hrule, hname⟩, -⟩ := mem_candidates_iff.mp hname
  obtain ⟨form, hclear, hform⟩ := exists_form_of_mem_rules hrule
  obtain ⟨front, taken, rest, rfl, hrefers⟩ := (mem_extract_iff hform hclear).mp hname
  exact hrefers.infix_of_append front

theorem isWord_lf : isWord '\n' = false := by decide +kernel

/-- What comes before a reference may change, unless a word would go on into it. -/
theorem Form.Refers.change_before {name : List Char} (hrefers : form.Refers before rest name taken)
    (hbefore : before'.any isWord = false) : form.Refers before' rest name taken := by
  obtain ⟨gap, opening, closing, hgap, hspaced, hopening, hname, hlead, hlonger, hclosing, hend,
    hwhole⟩ := hrefers
  refine .mk _ _ _ hgap hspaced hopening hname hlead hlonger hclosing hend fun hwhole' => ?_
  obtain ⟨hedge, hafter⟩ := hwhole hwhole'
  refine ⟨?_, hafter⟩
  rcases List.eq_nil_or_concat (form.marker ++ gap ++ opening) with hnil | ⟨front, c, hfront⟩
  · rw [hnil]
    exact hbefore
  · rw [hfront] at hedge ⊢
    simpa [lastOr] using hedge

theorem mem_extract_append_lf (hrule : rule ∈ rules) (hname : name ∈ rule.extract above) :
    name ∈ rule.extract (above ++ '\n' :: below) := by
  obtain ⟨form, hclear, hform⟩ := exists_form_of_mem_rules hrule
  rw [mem_extract_iff hform hclear] at hname ⊢
  obtain ⟨front, taken, rest, rfl, hrefers⟩ := hname
  refine ⟨front, taken, rest ++ '\n' :: below, by simp, hrefers.change_rest ?_⟩
  cases rest with
  | nil => exact .inr (by simp [isWord_lf])
  | cons c rest => exact .inl rfl

theorem mem_extract_of_lf_append (hrule : rule ∈ rules) (hname : name ∈ rule.extract below) :
    name ∈ rule.extract (above ++ '\n' :: below) := by
  obtain ⟨form, hclear, hform⟩ := exists_form_of_mem_rules hrule
  rw [mem_extract_iff hform hclear] at hname ⊢
  obtain ⟨front, taken, rest, rfl, hrefers⟩ := hname
  refine ⟨above ++ '\n' :: front, taken, rest, by simp, ?_⟩
  rcases List.eq_nil_or_concat front with rfl | ⟨front, c, rfl⟩
  · apply hrefers.change_before
    simp [isWord_lf]
  · simpa [List.getLast?_append, List.getLast?_cons] using hrefers

theorem mem_candidates_append_lf (hname : name ∈ candidates above ∨ name ∈ candidates below) :
    name ∈ candidates (above ++ '\n' :: below) := by
  simp only [mem_candidates_iff] at hname ⊢
  rcases hname with ⟨⟨rule, hrule, hname⟩, hkept⟩ | ⟨⟨rule, hrule, hname⟩, hkept⟩
  · exact ⟨⟨rule, hrule, mem_extract_append_lf hrule hname⟩, hkept⟩
  · exact ⟨⟨rule, hrule, mem_extract_of_lf_append hrule hname⟩, hkept⟩

/-- **The names found are those captured anywhere.** -/
theorem candidates_are_all_captures :
    (∀ text, ∀ rule ∈ rules, ∀ name, name ∈ rule.extract text ↔ rule.Captures text name) ∧
      (∀ text name, name ∈ candidates text ↔
        (∃ rule ∈ rules, rule.Captures text name) ∧ name ∉ reserved ∧ 3 ≤ name.length) ∧
      (∀ text, ∀ name ∈ candidates text, IsVariableName name.toList ∧ name.toList <:+: text) ∧
      ∀ above below name, name ∈ candidates above ∨ name ∈ candidates below →
        name ∈ candidates (above ++ '\n' :: below) := by
  refine ⟨?_, ?_, ?_, ?_⟩
  · intro text rule hrule name
    exact mem_extract_iff_captures hrule
  · intro text name
    rw [mem_candidates_iff, isCandidate_iff]
    refine and_congr_left fun _ => exists_congr fun rule => and_congr_right fun hrule => ?_
    exact mem_extract_iff_captures hrule
  · intro text name hname
    exact ⟨isVariableName_of_mem_candidates hname, infix_of_mem_candidates hname⟩
  · intro above below name hname
    exact mem_candidates_append_lf hname

end EnvFill.Name
