import EnvFill.Ignore.Pattern
import EnvFill.Proofs.Lines
import EnvFill.Proofs.Results

/-!
# Lines of ignore patterns

What a line that is a pattern consists of, which patterns several lines make, and what they ignore if
none of them takes paths out again.
-/

namespace EnvFill.Ignore

open Regex Text

variable {line : String} {lines : List String} {pattern : Pattern} {patterns : List Pattern}
  {component : List Char} {components : List (List Char)}

/-- Without brackets there are no ranges. -/
theorem rangesIn_of_not_mem (hbracket : '[' ∉ component) : rangesIn component = [] := by
  fun_induction rangesIn component with
  | case1 | case2 => rfl
  | case3 c rest ih =>
    exact ih fun hmem => hbracket (List.mem_cons_of_mem _ (List.mem_cons_of_mem c hmem))
  | case4 | case5 => exact absurd List.mem_cons_self hbracket
  | case6 c rest _ _ _ ih => exact ih fun hmem => hbracket (List.mem_cons_of_mem c hmem)

theorem reversedRange?_of_not_mem (hbracket : ∀ component ∈ components, '[' ∉ component) :
    reversedRange? (components.flatMap rangesIn) = none := by
  rw [List.flatMap_eq_nil_iff.mpr fun component hcomponent => rangesIn_of_not_mem (hbracket component hcomponent)]
  rfl

theorem trim_begins (line : List Char) : Pattern.trim line <+: line := by
  unfold Pattern.trim
  split
  · exact List.prefix_refl line
  · exact List.rdropWhile_prefix _ _

/-- The components that a line writes, after its mark for taking paths out again. -/
def lineComponents (first : Char) (rest : List Char) : List (List Char) :=
  splitAtEach (· == '/') (if first == '!' then rest else first :: rest)

def lineExpression? (first : Char) (rest : List Char) : Except Fault Regex :=
  Pattern.expression? ((lineComponents first rest).getLast? = some [])
    (Pattern.mergeAnyDepth (Pattern.openEnd (Pattern.anchorComponents (lineComponents first rest))))

/-- What becomes of a line: by what is left of it without the blanks, and then by its expression. -/
inductive Parses (line : String) : Except PatternError (Option Pattern) → Prop where
  | blank (htrim : Pattern.trim line.toList = []) : Parses line (.ok none)
  | remark {rest : List Char} (htrim : Pattern.trim line.toList = '#' :: rest) : Parses line (.ok none)
  | slash (htrim : Pattern.trim line.toList = ['/']) : Parses line (.ok none)
  | noComponents {first : Char} {rest : List Char} (htrim : Pattern.trim line.toList = first :: rest)
      (hremark : first ≠ '#') (hanchored : Pattern.anchorComponents (lineComponents first rest) = []) :
      Parses line (.error (.notPattern line))
  | pattern {first : Char} {rest : List Char} {regex : Regex}
      (htrim : Pattern.trim line.toList = first :: rest) (hremark : first ≠ '#')
      (hanchored : Pattern.anchorComponents (lineComponents first rest) ≠ [])
      (hregex : lineExpression? first rest = .ok regex) :
      Parses line (.ok (some ⟨first == '!', regex⟩))
  | openBracket {first : Char} {rest : List Char} (htrim : Pattern.trim line.toList = first :: rest)
      (hremark : first ≠ '#') (hanchored : Pattern.anchorComponents (lineComponents first rest) ≠ [])
      (hregex : lineExpression? first rest = .error .openBracket) : Parses line (.ok none)
  | loneBackslash {first : Char} {rest : List Char} (htrim : Pattern.trim line.toList = first :: rest)
      (hremark : first ≠ '#') (hanchored : Pattern.anchorComponents (lineComponents first rest) ≠ [])
      (hregex : lineExpression? first rest = .error .loneBackslash) : Parses line (.error (.notPattern line))
  | badRange {first low high : Char} {rest : List Char} (htrim : Pattern.trim line.toList = first :: rest)
      (hremark : first ≠ '#') (hanchored : Pattern.anchorComponents (lineComponents first rest) ≠ [])
      (hregex : lineExpression? first rest = .error (.badRange low high)) :
      Parses line (.error (.badRange low high))

theorem parses_parse? (line : String) : Parses line (Pattern.parse? line) := by
  unfold Pattern.parse?
  split
  · rename_i htrim
    exact .blank htrim
  · rename_i htrim
    exact .remark htrim
  · rename_i htrim
    exact .slash htrim
  · rename_i first rest hmark _ htrim
    have hremark : first ≠ '#' := fun heq => hmark heq
    dsimp only
    split
    · rename_i hanchored
      exact .noComponents htrim hremark hanchored
    · rename_i hanchored
      have hanchored : Pattern.anchorComponents (lineComponents first rest) ≠ [] := hanchored
      split
      · rename_i regex hregex
        exact .pattern htrim hremark hanchored hregex
      · rename_i hregex
        exact .openBracket htrim hremark hanchored hregex
      · rename_i hregex
        exact .loneBackslash htrim hremark hanchored hregex
      · rename_i low high hregex
        exact .badRange htrim hremark hanchored hregex

theorem exists_of_parse? (hpattern : Pattern.parse? line = .ok (some pattern)) :
    ∃ first rest, Pattern.trim line.toList = first :: rest ∧ pattern.negated = (first == '!') ∧
      lineExpression? first rest = .ok pattern.regex := by
  have hparses := parses_parse? line
  rw [hpattern] at hparses
  cases hparses with
  | pattern htrim hremark hanchored hregex => exact ⟨_, _, htrim, rfl, hregex⟩

/-- A line that does not begin with an exclamation mark takes no paths out again. -/
theorem negated_of_parse? (hmark : line.toList.head? ≠ some '!')
    (hpattern : Pattern.parse? line = .ok (some pattern)) : pattern.negated = false := by
  obtain ⟨first, rest, htrim, hnegated, -⟩ := exists_of_parse? hpattern
  obtain ⟨after, hline⟩ := trim_begins line.toList
  rw [htrim] at hline
  rw [hnegated, beq_eq_false_iff_ne]
  rintro rfl
  exact hmark (by rw [← hline]; rfl)

theorem parsePatterns_cons_eq_ok_iff :
    parsePatterns (line :: lines) = .ok patterns ↔
      ∃ first rest, Pattern.parse? line = .ok first ∧ parsePatterns lines = .ok rest ∧
        patterns = first.toList ++ rest := by
  rw [parsePatterns]
  constructor
  · intro hpatterns
    obtain ⟨first, hfirst, hpatterns⟩ := except_bind_eq_ok_iff.mp hpatterns
    obtain ⟨rest, hrest, hpatterns⟩ := except_bind_eq_ok_iff.mp hpatterns
    exact ⟨first, rest, hfirst, hrest, (Except.ok.inj hpatterns).symm⟩
  · rintro ⟨first, rest, hfirst, hrest, rfl⟩
    rw [hfirst, hrest]
    rfl

theorem exists_parse?_of_isOk (hline : (Pattern.parse? line).isOk = true) :
    ∃ pattern, Pattern.parse? line = .ok pattern := by
  cases hparse : Pattern.parse? line with
  | ok pattern => exact ⟨pattern, rfl⟩
  | error fault =>
    rw [hparse] at hline
    exact absurd hline Bool.false_ne_true

theorem exists_parsePatterns
    (hlines : ∀ line ∈ lines, ∃ pattern, Pattern.parse? line = .ok pattern) :
    ∃ patterns, parsePatterns lines = .ok patterns := by
  induction lines with
  | nil => exact ⟨[], rfl⟩
  | cons line lines ih =>
    obtain ⟨pattern, hpattern⟩ := hlines line List.mem_cons_self
    obtain ⟨patterns, hpatterns⟩ := ih fun other hother => hlines other (List.mem_cons_of_mem line hother)
    exact ⟨_, parsePatterns_cons_eq_ok_iff.mpr ⟨pattern, patterns, hpattern, hpatterns, rfl⟩⟩

theorem mem_parsePatterns_iff (hpatterns : parsePatterns lines = .ok patterns) :
    pattern ∈ patterns ↔ ∃ line ∈ lines, Pattern.parse? line = .ok (some pattern) := by
  induction lines generalizing patterns with
  | nil =>
    obtain rfl := Except.ok.inj hpatterns
    simp
  | cons line lines ih =>
    obtain ⟨first, others, hfirst, hothers, rfl⟩ := parsePatterns_cons_eq_ok_iff.mp hpatterns
    rw [List.mem_append, ih hothers, List.exists_mem_cons_iff, hfirst, Option.mem_toList,
      Except.ok.injEq]

theorem parsePatterns_append {others : List String} {more : List Pattern}
    (hpatterns : parsePatterns lines = .ok patterns) (hmore : parsePatterns others = .ok more) :
    parsePatterns (lines ++ others) = .ok (patterns ++ more) := by
  induction lines generalizing patterns with
  | nil =>
    obtain rfl := Except.ok.inj hpatterns
    exact hmore
  | cons line lines ih =>
    obtain ⟨first, rest, hfirst, hrest, rfl⟩ := parsePatterns_cons_eq_ok_iff.mp hpatterns
    exact parsePatterns_cons_eq_ok_iff.mpr ⟨first, _, hfirst, ih hrest, List.append_assoc _ _ _⟩

/-- A pattern after all others decides where it applies. -/
theorem ignores_concat (patterns : List Pattern) (pattern : Pattern) (path : String) :
    ignores (patterns ++ [pattern]) path =
      if pattern.regex.occursIn (plainPath path.toList) then !pattern.negated else ignores patterns path := by
  unfold ignores
  rw [List.reverse_concat, List.find?_cons]
  cases pattern.regex.occursIn (plainPath path.toList) <;> rfl

/-- Without patterns that take paths out again, any pattern decides. -/
theorem ignores_iff {path : String}
    (hplain : ∀ pattern ∈ patterns, pattern.negated = false) :
    ignores patterns path = true ↔
      ∃ pattern ∈ patterns, pattern.regex.occursIn (plainPath path.toList) = true := by
  unfold ignores
  split
  · rename_i pattern hfind
    have hmem := List.mem_reverse.mp (List.mem_of_find?_eq_some hfind)
    rw [hplain pattern hmem, Bool.not_false, eq_self_iff_true, true_iff]
    have hoccurs := List.find?_some hfind
    exact ⟨pattern, hmem, hoccurs⟩
  · rename_i hnone
    rw [List.find?_eq_none] at hnone
    constructor
    · simp
    · rintro ⟨pattern, hmem, hoccurs⟩
      exact absurd hoccurs (hnone pattern (List.mem_reverse.mpr hmem))

end EnvFill.Ignore
