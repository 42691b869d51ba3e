import EnvFill.Proofs.Globs
import EnvFill.Proofs.PatternLines

/-!
# Patterns of literal lines

In a line in which every character means itself the components stand for themselves. Such a line applies to
a path in which its text stands where a component ends: at the beginning if the line has a slash before its
end, and else behind any directories.
-/

namespace EnvFill.Ignore

open Regex Text

variable {file text component first : List Char} {components more : List (List Char)}
  {afterSlash isOpen : Bool} {before : Option Char} {taken rest : List Char} {captured : Option (List Char)}

theorem exists_glob?_of_plain (hplain : ∀ c ∈ component, c ∉ specials) :
    ∃ regex, glob? component = .ok regex := by
  induction component with
  | nil => exact ⟨.empty, by rw [glob?]⟩
  | cons c component ih =>
    obtain ⟨hc, hrest⟩ := List.forall_mem_cons.mp hplain
    obtain ⟨regex, hregex⟩ := ih hrest
    simp only [specials, List.mem_cons, List.not_mem_nil, or_false, not_or] at hc
    obtain ⟨hescape, hstar, hany, hbracket⟩ := hc
    refine ⟨.seq (.one (· == c)) regex, ?_⟩
    rw [glob?, hregex]
    · rfl
    · exact fun h _ => hescape h
    · exact fun _ _ h _ => hescape h
    · exact hstar
    · exact hany
    · exact hbracket

theorem stands_iff_of_plain (hplain : ∀ c ∈ component, c ∉ specials) :
    Stands component text ↔ text = component := by
  induction component generalizing text with
  | nil => exact stands_nil_iff
  | cons c component ih =>
    obtain ⟨hc, hrest⟩ := List.forall_mem_cons.mp hplain
    simp only [stands_char_iff hc, ih hrest, exists_eq_right]

theorem ne_star_of_plain (hplain : ∀ c ∈ component, c ∉ specials) : component ≠ ['*'] := by
  rintro rfl
  exact hplain '*' (by simp) (by decide)

theorem ne_anyDepth_of_plain (hplain : ∀ c ∈ component, c ∉ specials) : component ≠ Pattern.anyDepth := by
  rintro rfl
  exact hplain '*' (by decide) (by decide)

/-- What is taken behind the last component: a slash, or nothing where the path ends. If something has to
lie below, it is a slash. -/
def Closes (isOpen : Bool) (taken rest : List Char) : Prop :=
  taken = ['/'] ∨ isOpen = false ∧ taken = [] ∧ (rest = [] ∨ rest = ['\n'])

/-- What stands behind the components of a pattern: if something has to lie below, any path. -/
def belowIf (isOpen : Bool) : List (List Char) := if isOpen then [Pattern.anyDepth] else []

def slashIf (afterSlash : Bool) : List Char := if afterSlash then ['/'] else []

theorem takes_slash_iff :
    Takes Pattern.slash before taken rest captured ↔ Closes true taken rest ∧ captured = none := by
  rw [Pattern.slash, takes_one_iff]
  simp [Closes]

theorem takes_slash_or_stop_iff :
    Takes (.alt Pattern.slash .stop) before taken rest captured ↔
      Closes false taken rest ∧ captured = none := by
  rw [takes_alt_iff, takes_slash_iff, stop, takes_place_iff]
  simp [Closes]
  tauto

/-- A component is taken as it is, behind its slash. -/
theorem takes_component_iff {glob : Regex} {others : List Regex} (hglob : glob? component = .ok glob)
    (hplain : ∀ c ∈ component, c ∉ specials) :
    Takes (inOrder ((if afterSlash then [Pattern.slash] else []) ++ glob :: others)) before taken rest
        captured ↔
      ∃ back, taken = slashIf afterSlash ++ (component ++ back) ∧
        Takes (inOrder others) (lastOr before (slashIf afterSlash ++ component)) back rest captured := by
  have hhere : ∀ before taken captured,
      Takes (inOrder (glob :: others)) before taken rest captured ↔
        ∃ back, taken = component ++ back ∧
          Takes (inOrder others) (lastOr before component) back rest captured := by
    intro before taken captured
    simp only [takes_inOrder_cons_iff, takes_seq_iff, takes_glob?_iff hglob, stands_iff_of_plain hplain]
    constructor
    · rintro ⟨_, back, _, after, rfl, ⟨rfl, rfl⟩, hafter, rfl⟩
      exact ⟨back, rfl, by simpa using hafter⟩
    · rintro ⟨back, rfl, hafter⟩
      exact ⟨component, back, none, captured, rfl, ⟨rfl, rfl⟩, hafter, by simp⟩
  cases afterSlash with
  | false => exact hhere before taken captured
  | true =>
    rw [if_pos rfl, Pattern.slash, List.singleton_append, takes_inOrder_one_iff]
    simp only [hhere, beq_iff_eq, slashIf, if_true, lastOr_append, lastOr_singleton]
    constructor
    · rintro ⟨_, _, rfl, rfl, back, rfl, hback⟩
      exact ⟨back, rfl, hback⟩
    · rintro ⟨back, rfl, hback⟩
      exact ⟨'/', _, rfl, rfl, back, rfl, hback⟩

theorem components?_cons_of_plain {isFirst : Bool} {glob : Regex} {later : List Regex}
    (hplain : ∀ c ∈ component, c ∉ specials) (hglob : glob? component = .ok glob)
    (hlater : Pattern.components? false true components = .ok later) :
    Pattern.components? isFirst afterSlash (component :: components) =
      .ok ((if isFirst then [.start] else []) ++ (if afterSlash then [Pattern.slash] else []) ++ [glob] ++
        (if components.isEmpty then [.alt Pattern.slash .stop] else []) ++ later) := by
  rw [Pattern.components?, if_neg (ne_anyDepth_of_plain hplain), if_neg (ne_star_of_plain hplain), hglob,
    hlater]
  rfl

/-- A pattern begins at the beginning of the path. -/
theorem components?_first {regexes : List Regex} (hplain : ∀ c ∈ component, c ∉ specials)
    (hregexes : Pattern.components? false false (component :: components) = .ok regexes) :
    Pattern.components? true false (component :: components) = .ok (.start :: regexes) := by
  obtain ⟨glob, hglob⟩ := exists_glob?_of_plain hplain
  have hany := ne_anyDepth_of_plain hplain
  have hstar := ne_star_of_plain hplain
  rw [Pattern.components?, if_neg hany, if_neg hstar, hglob] at hregexes ⊢
  obtain ⟨here, hhere, hregexes⟩ := except_bind_eq_ok_iff.mp hregexes
  obtain ⟨later, hlater, hregexes⟩ := except_bind_eq_ok_iff.mp hregexes
  obtain rfl := Except.ok.inj hhere
  rw [← Except.ok.inj hregexes, hlater]
  rfl

/-- The last component is followed by what closes it. -/
theorem exists_components?_last {glob : Regex} (hplain : ∀ c ∈ component, c ∉ specials)
    (hglob : glob? component = .ok glob) (afterSlash isOpen : Bool) :
    ∃ last, Pattern.components? false afterSlash ([component] ++ belowIf isOpen) =
        .ok ((if afterSlash then [Pattern.slash] else []) ++ [glob, last]) ∧
      ∀ before taken rest captured, Takes last before taken rest captured ↔
        Closes isOpen taken rest ∧ captured = none := by
  cases isOpen with
  | false =>
    refine ⟨.alt Pattern.slash .stop, ?_, fun _ _ _ _ => takes_slash_or_stop_iff⟩
    rw [belowIf, if_neg Bool.false_ne_true, List.append_nil,
      components?_cons_of_plain hplain hglob (by rw [Pattern.components?])]
    simp
  | true =>
    refine ⟨Pattern.slash, ?_, fun _ _ _ _ => takes_slash_iff⟩
    have hbelow : Pattern.components? false true [Pattern.anyDepth] = .ok [Pattern.slash] := rfl
    rw [belowIf, if_pos rfl, List.singleton_append, components?_cons_of_plain hplain hglob hbelow]
    simp

/-- **Literal components** take their text and what closes it. -/
theorem exists_components?_of_plain
    (hplain : ∀ component ∈ first :: more, ∀ c ∈ component, c ∉ specials) (afterSlash isOpen : Bool) :
    ∃ regexes, Pattern.components? false afterSlash (first :: more ++ belowIf isOpen) = .ok regexes ∧
      ∀ before taken rest captured, Takes (inOrder regexes) before taken rest captured ↔
        (∃ ending, Closes isOpen ending rest ∧
          taken = slashIf afterSlash ++ (['/'].intercalate (first :: more) ++ ending)) ∧
            captured = none := by
  induction more generalizing first afterSlash with
  | nil =>
    have hfirst := hplain first List.mem_cons_self
    obtain ⟨glob, hglob⟩ := exists_glob?_of_plain hfirst
    obtain ⟨last, hlast, hcloses⟩ := exists_components?_last hfirst hglob afterSlash isOpen
    refine ⟨_, hlast, fun before taken rest captured => ?_⟩
    rw [takes_component_iff hglob hfirst]
    simp only [inOrder, hcloses, List.intercalate_singleton]
    constructor
    · rintro ⟨ending, rfl, hending, rfl⟩
      exact ⟨⟨ending, hending, rfl⟩, rfl⟩
    · rintro ⟨⟨ending, hending, rfl⟩, rfl⟩
      exact ⟨ending, rfl, hending, rfl⟩
  | cons next more ih =>
    obtain ⟨hfirst, hmore⟩ := List.forall_mem_cons.mp hplain
    obtain ⟨glob, hglob⟩ := exists_glob?_of_plain hfirst
    obtain ⟨later, hlater, htakes⟩ := ih hmore true
    have hall : Pattern.components? false afterSlash (first :: (next :: more ++ belowIf isOpen)) =
        .ok ((if afterSlash then [Pattern.slash] else []) ++ glob :: later) := by
      rw [components?_cons_of_plain hfirst hglob hlater]
      simp
    refine ⟨_, hall, fun before taken rest captured => ?_⟩
    rw [takes_component_iff hglob hfirst]
    simp only [htakes, slashIf, if_true, List.intercalate_cons_cons, List.append_assoc]
    constructor
    · rintro ⟨_, rfl, ⟨ending, hending, rfl⟩, rfl⟩
      exact ⟨⟨ending, hending, rfl⟩, rfl⟩
    · rintro ⟨⟨ending, hending, rfl⟩, rfl⟩
      exact ⟨_, rfl, ⟨ending, hending, rfl⟩, rfl⟩

/-- A line in which every character means itself, and which nothing is trimmed off. -/
structure IsLiteral (file : List Char) : Prop where
  head_ne : file.head? ≠ some '/' ∧ file.head? ≠ some '!' ∧ file.head? ≠ some '#'
  plain : ∀ c ∈ file, c ∉ specials
  last_not_blank : file.getLast?.any (!isBlank ·) = true

/-- The line is the components with slashes between them, and with one at its end if something has to lie
below. -/
structure HasParts (file first : List Char) (more : List (List Char)) (isOpen : Bool) : Prop where
  first_ne : first ≠ []
  plain : ∀ part ∈ first :: more, ∀ c ∈ part, c ∉ specials
  noSlash : ∀ part ∈ first :: more, '/' ∉ part
  last_ne : isOpen = false → (first :: more).getLast? ≠ some []
  split_eq : splitAtEach (· == '/') file = first :: more ++ (if isOpen then [[]] else [])
  file_eq : file = ['/'].intercalate (first :: more) ++ slashIf isOpen

theorem IsLiteral.ne_nil (hfile : IsLiteral file) : file ≠ [] := by
  rintro rfl
  simpa using hfile.last_not_blank

theorem IsLiteral.exists_hasParts (hfile : IsLiteral file) :
    ∃ first more isOpen, HasParts file first more isOpen := by
  obtain ⟨front, last, hsplit, hfront⟩ := exists_endEach_append '/' file
  have hmem : ∀ part ∈ front ++ [last], ∀ c ∈ part, c ∈ file ∧ (c == '/') = false := by
    rw [← hsplit]
    exact fun part hpart => forall_of_mem_splitAtEach hpart
  have hplain : ∀ part ∈ front ++ [last], ∀ c ∈ part, c ∉ specials :=
    fun part hpart c hc => hfile.plain c (hmem part hpart c hc).1
  have hslash : ∀ part ∈ front ++ [last], '/' ∉ part :=
    fun part hpart hc => by simpa using (hmem part hpart '/' hc).2
  have hfirst : (front ++ [last]).head? ≠ some [] := by
    cases front with
    | nil =>
      rintro hhead
      obtain rfl : last = [] := by simpa using hhead
      exact hfile.ne_nil hfront
    | cons first front =>
      rintro hhead
      obtain rfl : first = [] := by simpa using hhead
      exact hfile.head_ne.1 (by rw [hfront]; simp)
  by_cases hlast : last = []
  · subst hlast
    rw [List.append_nil] at hfront
    obtain ⟨first, more, rfl⟩ := List.exists_cons_of_ne_nil
      (show front ≠ [] by rintro rfl; exact hfirst rfl)
    refine ⟨first, more, true, by simpa using hfirst, ?_, ?_, by simp, hsplit, ?_⟩
    · exact fun part hpart => hplain part (List.mem_append_left _ hpart)
    · exact fun part hpart => hslash part (List.mem_append_left _ hpart)
    · exact hfront.trans (endEach_eq_intercalate '/' (List.cons_ne_nil first more))
  · rw [← intercalate_concat] at hfront
    have hend : (front ++ [last]).getLast? ≠ some [] := by simpa using hlast
    obtain ⟨first, more, hparts⟩ := List.exists_cons_of_ne_nil
      (show front ++ [last] ≠ [] by simp)
    rw [hparts] at hsplit hplain hslash hfront hfirst hend
    exact ⟨first, more, false, by simpa using hfirst, hplain, hslash, fun _ => hend, by simpa using hsplit,
      by simpa [slashIf] using hfront⟩

theorem mergeAnyDepth_append_belowIf (hparts : ∀ part ∈ components, part ≠ Pattern.anyDepth) :
    Pattern.mergeAnyDepth (components ++ belowIf isOpen) = components ++ belowIf isOpen := by
  induction components with
  | nil => cases isOpen <;> rfl
  | cons part components ih =>
    obtain ⟨hpart, hcomponents⟩ := List.forall_mem_cons.mp hparts
    rw [List.cons_append, Pattern.mergeAnyDepth, ih hcomponents]
    simp [hpart]

theorem HasParts.openEnd_append (hparts : HasParts file first more isOpen) (front : List (List Char)) :
    Pattern.openEnd (front ++ (first :: more ++ (if isOpen then [[]] else []))) =
      front ++ (first :: more ++ belowIf isOpen) := by
  cases isOpen with
  | false =>
    have hlast : (front ++ first :: more).getLast? ≠ some [] := by
      rw [List.getLast?_append_of_ne_nil _ (List.cons_ne_nil _ _)]
      exact hparts.last_ne rfl
    rw [if_neg Bool.false_ne_true, List.append_nil, Pattern.openEnd, if_neg hlast]
    simp [belowIf]
  | true =>
    rw [if_pos rfl, ← List.append_assoc, Pattern.openEnd, if_pos (List.getLast?_concat ..),
      List.dropLast_concat, List.append_assoc]
    rfl

/-- A component alone is sought behind any directories. -/
theorem HasParts.anchorComponents_eq (hparts : HasParts file first more isOpen) :
    Pattern.anchorComponents (splitAtEach (· == '/') file) =
      (if more = [] then [Pattern.anyDepth] else []) ++
        (first :: more ++ (if isOpen then [[]] else [])) := by
  have hany := ne_anyDepth_of_plain (hparts.plain first List.mem_cons_self)
  obtain ⟨c, text, rfl⟩ := List.exists_cons_of_ne_nil hparts.first_ne
  rw [hparts.split_eq]
  cases more with
  | nil => cases isOpen <;> simp [Pattern.anchorComponents, hany]
  | cons next more =>
    rw [if_neg (List.cons_ne_nil _ _), List.nil_append]
    cases isOpen with
    | false =>
      have hlast : more = [] → next ≠ [] := by
        rintro rfl rfl
        exact hparts.last_ne rfl rfl
      cases more <;> cases next <;> simp_all [Pattern.anchorComponents]
    | true => cases more <;> simp [Pattern.anchorComponents]

/-- The components of a line are those of its pattern, behind any directories if there is only one. -/
theorem HasParts.mergeAnyDepth_eq (hparts : HasParts file first more isOpen) :
    Pattern.mergeAnyDepth (Pattern.openEnd (Pattern.anchorComponents (splitAtEach (· == '/') file))) =
      (if more = [] then [Pattern.anyDepth] else []) ++ (first :: more ++ belowIf isOpen) := by
  have hany : ∀ part ∈ first :: more, part ≠ Pattern.anyDepth :=
    fun part hpart => ne_anyDepth_of_plain (hparts.plain part hpart)
  have hmerge := @mergeAnyDepth_append_belowIf _ isOpen hany
  rw [hparts.anchorComponents_eq, hparts.openEnd_append]
  split
  · have hfirst := hany first List.mem_cons_self
    rw [List.singleton_append, Pattern.mergeAnyDepth, hmerge]
    simp [hfirst]
  · rw [List.nil_append, hmerge]

/-- What may stand before the only component of a line: nothing, or a path and a slash. -/
def IsLead (lead : List Char) : Prop :=
  lead = [] ∨ ∃ front, front ≠ [] ∧ '\n' ∉ front ∧ lead = front ++ ['/']

theorem takes_lead_iff :
    Takes (maybe (.seq Pattern.anything Pattern.slash)) before taken rest captured ↔
      IsLead taken ∧ captured = none := by
  rw [takes_maybe_iff]
  simp only [takes_seq_iff, Pattern.anything, takes_oneOrMore_iff, Pattern.slash, takes_one_iff]
  constructor
  · rintro (⟨front, back, _, _, rfl, ⟨hne, hfront, rfl⟩, ⟨c, hc, rfl, rfl⟩, rfl⟩ | ⟨rfl, rfl⟩)
    · obtain rfl : c = '/' := by simpa using hc
      exact ⟨.inr ⟨front, hne, fun hlf => by simpa using List.all_eq_true.mp hfront _ hlf, rfl⟩, rfl⟩
    · exact ⟨.inl rfl, rfl⟩
  · rintro ⟨rfl | ⟨front, hne, hlf, rfl⟩, rfl⟩
    · exact .inr ⟨rfl, rfl⟩
    · refine .inl ⟨front, ['/'], none, none, rfl, ⟨hne, ?_, rfl⟩, ⟨'/', rfl, rfl, rfl⟩, rfl⟩
      rw [List.all_eq_true]
      intro c hc
      have hne : c ≠ '\n' := by
        rintro rfl
        exact hlf hc
      simpa using hne

/-- The expression of a literal line. -/
theorem HasParts.exists_expression? (hparts : HasParts file first more isOpen) (isDirectory : Bool) :
    ∃ regex, Pattern.expression? isDirectory (Pattern.mergeAnyDepth (Pattern.openEnd
        (Pattern.anchorComponents (splitAtEach (· == '/') file)))) = .ok regex ∧
      ∀ before taken rest captured, Takes regex before taken rest captured ↔
        before = none ∧ (∃ lead ending, IsLead lead ∧ (more ≠ [] → lead = []) ∧ Closes isOpen ending rest ∧
          taken = lead ++ (['/'].intercalate (first :: more) ++ ending)) ∧ captured = none := by
  obtain ⟨regexes, hregexes, htakes⟩ := exists_components?_of_plain hparts.plain false isOpen
  have hfirst := hparts.plain first List.mem_cons_self
  have hany := ne_anyDepth_of_plain hfirst
  have hstar := ne_star_of_plain hfirst
  have hbelow : ∀ component ∈ belowIf isOpen, '[' ∉ component := by cases isOpen <;> decide
  have hbracket : ∀ component ∈ first :: more ++ belowIf isOpen, '[' ∉ component :=
    List.forall_mem_append.mpr
      ⟨fun component hcomponent hmem => hparts.plain component hcomponent '[' hmem (by decide), hbelow⟩
  rw [hparts.mergeAnyDepth_eq]
  cases more with
  | nil =>
    refine ⟨inOrder (.start :: maybe (.seq Pattern.anything Pattern.slash) :: regexes), ?_, ?_⟩
    · have hexpression : Pattern.components? true false (Pattern.anyDepth :: ([first] ++ belowIf isOpen)) =
          .ok (.start :: maybe (.seq Pattern.anything Pattern.slash) :: regexes) := by
        rw [Pattern.components?, if_pos rfl, if_pos rfl, hregexes]
        rfl
      have hordered : reversedRange? ((Pattern.anyDepth :: ([first] ++ belowIf isOpen)).flatMap rangesIn) = none :=
        reversedRange?_of_not_mem (List.forall_mem_cons.mpr ⟨by decide, hbracket⟩)
      have hspecial : [first] ++ belowIf isOpen ≠ [['*']] ∧
          [first] ++ belowIf isOpen ≠ [['*'], Pattern.anyDepth] := by simp [hstar]
      rw [if_pos rfl, List.singleton_append, Pattern.expression?, hexpression, if_neg (by simp),
        if_neg (by simpa using hspecial.1), if_neg (by simpa using hspecial.2)]
      simp only [bind, Except.bind, hordered]
    · intro before taken rest captured
      rw [start, takes_inOrder_place_iff, takes_inOrder_cons_iff, takes_seq_iff, Option.isNone_iff_eq_none]
      simp only [takes_lead_iff, htakes, slashIf]
      refine and_congr_right fun _ => ?_
      constructor
      · rintro ⟨lead, _, _, _, rfl, ⟨hlead, rfl⟩, ⟨⟨ending, hending, rfl⟩, rfl⟩, rfl⟩
        exact ⟨⟨lead, ending, hlead, fun hne => absurd rfl hne, hending, rfl⟩, rfl⟩
      · rintro ⟨⟨lead, ending, hlead, -, hending, rfl⟩, rfl⟩
        exact ⟨lead, _, none, none, rfl, ⟨hlead, rfl⟩, ⟨⟨ending, hending, rfl⟩, rfl⟩, rfl⟩
  | cons next more =>
    refine ⟨inOrder (.start :: regexes), ?_, ?_⟩
    · have hexpression : Pattern.components? true false (first :: next :: more ++ belowIf isOpen) =
          .ok (.start :: regexes) := components?_first hfirst hregexes
      have hordered := reversedRange?_of_not_mem hbracket
      rw [if_neg (List.cons_ne_nil _ _), List.nil_append, Pattern.expression?, hexpression,
        if_neg (by simp), if_neg (by simp [hany]), if_neg (by simp [hany])]
      simp only [bind, Except.bind, hordered]
    · intro before taken rest captured
      rw [start, takes_inOrder_place_iff, Option.isNone_iff_eq_none, htakes]
      refine and_congr_right fun _ => and_congr_left fun _ => ?_
      constructor
      · rintro ⟨ending, hending, rfl⟩
        exact ⟨[], ending, .inl rfl, fun _ => rfl, hending, rfl⟩
      · rintro ⟨lead, ending, -, hlead, hending, rfl⟩
        obtain rfl := hlead (List.cons_ne_nil _ _)
        exact ⟨ending, hending, rfl⟩

/-- A component ends here: with the path, before a line feed that ends it, or at a slash. -/
inductive EndsComponent : List Char → Prop where
  | nil : EndsComponent []
  | lf : EndsComponent ['\n']
  | slash (below : List Char) : EndsComponent ('/' :: below)

/-- The line stands in the path: where a component ends, unless it ends in a slash itself, and at the
beginning, unless it has no other slash. -/
def Covers (file text : List Char) : Prop :=
  ∃ lead rest, IsLead lead ∧ ('/' ∈ file.dropLast → lead = []) ∧ text = lead ++ (file ++ rest) ∧
    (file.getLast? = some '/' ∨ EndsComponent rest)

theorem HasParts.exists_concat (hparts : HasParts file first more false) :
    ∃ front c, file = front ++ [c] ∧ c ≠ '/' := by
  obtain ⟨front, last, hconcat⟩ := (List.eq_nil_or_concat' (first :: more)).resolve_left (by simp)
  have hlast : last ≠ [] := by
    rintro rfl
    exact hparts.last_ne rfl (by simp [hconcat])
  have hslash : '/' ∉ last := hparts.noSlash last (by simp [hconcat])
  obtain ⟨text, c, rfl⟩ := (List.eq_nil_or_concat' last).resolve_left hlast
  refine ⟨endEach '/' front ++ text, c, ?_, ?_⟩
  · rw [hparts.file_eq, hconcat, intercalate_concat]
    simp [slashIf]
  · rintro rfl
    exact hslash (by simp)

theorem HasParts.slash_mem_dropLast_iff (hparts : HasParts file first more isOpen) :
    '/' ∈ file.dropLast ↔ more ≠ [] := by
  have hmem : '/' ∈ ['/'].intercalate (first :: more) ↔ more ≠ [] := by
    have hfirst := hparts.noSlash first List.mem_cons_self
    cases more with
    | nil => simp [hfirst]
    | cons next more => simp
  rw [← hmem]
  cases isOpen with
  | true => rw [hparts.file_eq, slashIf, if_pos rfl, List.dropLast_concat]
  | false =>
    obtain ⟨front, c, hfile, hc⟩ := hparts.exists_concat
    have heq : ['/'].intercalate (first :: more) = front ++ [c] := by
      rw [← hfile, hparts.file_eq, slashIf, if_neg Bool.false_ne_true, List.append_nil]
    rw [heq, hfile, List.dropLast_concat]
    simp [hc.symm]

theorem HasParts.getLast?_eq_slash_iff (hparts : HasParts file first more isOpen) :
    file.getLast? = some '/' ↔ isOpen = true := by
  cases isOpen with
  | true => simp [hparts.file_eq, slashIf]
  | false =>
    obtain ⟨front, c, rfl, hc⟩ := hparts.exists_concat
    simp [hc]

theorem HasParts.covers_iff (hparts : HasParts file first more isOpen) :
    Covers file text ↔ ∃ taken rest, text = taken ++ rest ∧ ∃ lead ending, IsLead lead ∧
      (more ≠ [] → lead = []) ∧ Closes isOpen ending rest ∧
        taken = lead ++ (['/'].intercalate (first :: more) ++ ending) := by
  unfold Covers
  rw [hparts.slash_mem_dropLast_iff, hparts.getLast?_eq_slash_iff]
  constructor
  · rintro ⟨lead, rest, hlead, honly, rfl, hends⟩
    rw [hparts.file_eq]
    rcases hends with rfl | hends
    · exact ⟨_, rest, (List.append_assoc ..).symm, lead, ['/'], hlead, honly, .inl rfl, rfl⟩
    cases isOpen with
    | true => exact ⟨_, rest, (List.append_assoc ..).symm, lead, ['/'], hlead, honly, .inl rfl, rfl⟩
    | false =>
      cases hends with
      | nil => exact ⟨_, [], by simp [slashIf], lead, [], hlead, honly, .inr ⟨rfl, rfl, .inl rfl⟩, rfl⟩
      | lf => exact ⟨_, ['\n'], by simp [slashIf], lead, [], hlead, honly, .inr ⟨rfl, rfl, .inr rfl⟩, rfl⟩
      | slash below => exact ⟨_, below, by simp [slashIf], lead, ['/'], hlead, honly, .inl rfl, rfl⟩
  · rintro ⟨_, rest, rfl, lead, ending, hlead, honly, hcloses, rfl⟩
    rw [hparts.file_eq]
    cases isOpen with
    | true =>
      obtain rfl : ending = ['/'] := by simpa [Closes] using hcloses
      exact ⟨lead, rest, hlead, honly, by simp [slashIf], .inl rfl⟩
    | false =>
      refine ⟨lead, ending ++ rest, hlead, honly, by simp [slashIf], .inr ?_⟩
      rcases hcloses with rfl | ⟨-, rfl, rfl | rfl⟩
      · exact .slash rest
      · exact .nil
      · exact .lf

/-- Blanks at the end of a line are no part of it. -/
theorem trim_append_of_isBlank {blanks : List Char} (hfile : IsLiteral file)
    (hblanks : ∀ c ∈ blanks, isBlank c = true) : Pattern.trim (file ++ blanks) = file := by
  obtain ⟨front, c, rfl⟩ := (List.eq_nil_or_concat' file).resolve_left hfile.ne_nil
  have hc : ¬isBlank c = true := by simpa using hfile.last_not_blank
  unfold Pattern.trim
  rw [if_neg]
  · rw [dropEndWhile_append_of_forall _ hblanks, dropEndWhile_concat front hc]
  · intro hsuffix
    have hmem : '\\' ∈ front ++ [c] ++ blanks := (List.isSuffixOf_iff_suffix.mp hsuffix).subset (by simp)
    rcases List.mem_append.mp hmem with hmem | hmem
    · exact hfile.plain _ hmem (by decide)
    · exact absurd (hblanks _ hmem) (by decide)

/-- **A literal line** is a pattern for the paths that it covers. -/
theorem exists_parse?_literal {blanks : List Char} (hfile : IsLiteral file)
    (hblanks : ∀ c ∈ blanks, isBlank c = true) :
    ∃ pattern, Pattern.parse? (String.ofList (file ++ blanks)) = .ok (some pattern) ∧
      pattern.negated = false ∧ ∀ text, pattern.regex.occursIn text = true ↔ Covers file text := by
  obtain ⟨first, more, isOpen, hparts⟩ := hfile.exists_hasParts
  obtain ⟨regex, hregex, htakes⟩ := hparts.exists_expression?
    ((splitAtEach (· == '/') file).getLast? = some [])
  refine ⟨⟨false, regex⟩, ?_, rfl, fun text => ?_⟩
  · obtain ⟨c, text, rfl⟩ := List.exists_cons_of_ne_nil hfile.ne_nil
    obtain ⟨hslash, hmark, hremark⟩ := hfile.head_ne
    have hnegated : (c == '!') = false := by simpa using hmark
    have hcomponents : lineComponents c text = splitAtEach (· == '/') (c :: text) := by
      rw [lineComponents, hnegated, if_neg Bool.false_ne_true]
    rw [← hcomponents] at hregex
    have hline : Pattern.trim (String.ofList (c :: text ++ blanks)).toList = c :: text := by
      rw [String.toList_ofList, trim_append_of_isBlank hfile hblanks]
    -- the line is neither empty nor a remark nor a slash alone
    have hparses := parses_parse? (String.ofList (c :: text ++ blanks))
    generalize Pattern.parse? (String.ofList (c :: text ++ blanks)) = result at hparses ⊢
    cases hparses with
    | blank htrim => exact absurd (hline.symm.trans htrim) (List.cons_ne_nil _ _)
    | remark htrim => exact absurd (List.cons.inj (hline.symm.trans htrim)).1 (by simpa using hremark)
    | slash htrim => exact absurd (List.cons.inj (hline.symm.trans htrim)).1 (by simpa using hslash)
    | noComponents htrim _ hanchored =>
      obtain ⟨rfl, rfl⟩ := List.cons.inj (hline.symm.trans htrim)
      have hmerge := hparts.mergeAnyDepth_eq
      rw [← hcomponents, hanchored] at hmerge
      simp [Pattern.openEnd, Pattern.mergeAnyDepth] at hmerge
    | pattern htrim _ _ hparsed =>
      obtain ⟨rfl, rfl⟩ := List.cons.inj (hline.symm.trans htrim)
      rw [Except.ok.inj (hparsed.symm.trans hregex), hnegated]
    | openBracket htrim _ _ hparsed =>
      obtain ⟨rfl, rfl⟩ := List.cons.inj (hline.symm.trans htrim)
      cases hparsed.symm.trans hregex
    | loneBackslash htrim _ _ hparsed | badRange htrim _ _ hparsed =>
      obtain ⟨rfl, rfl⟩ := List.cons.inj (hline.symm.trans htrim)
      cases hparsed.symm.trans hregex
  · rw [hparts.covers_iff, occursIn_iff_takes]
    simp only [htakes]
    constructor
    · rintro ⟨front, taken, rest, _, rfl, hfront, htaken, -⟩
      obtain rfl := List.getLast?_eq_none_iff.mp hfront
      exact ⟨taken, rest, rfl, htaken⟩
    · rintro ⟨taken, rest, rfl, htaken⟩
      exact ⟨[], taken, rest, none, rfl, rfl, htaken, rfl⟩

end EnvFill.Ignore
