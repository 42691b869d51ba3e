import EnvFill.Project.Ignored
import EnvFill.Proofs.PatternLines
import EnvFill.Proofs.SettingLine

/-!
# Ignore files that cannot be read

Of the lines of an ignore file, few make no expression: a single mark with nothing behind it, those with a
component that ends in a backslash which takes no character, and those with a range in brackets that ends
before it begins. A component with an open bracket has no effect, and neither has what comes after it. So the
whole file cannot be read where its bytes are no text, or where one of its lines is of this kind.
-/

namespace EnvFill.Ignore

open Text

variable {α β : Type} {component text rest : List Char} {components : List (List Char)} {fault : Option Fault}

/-! ### Components -/

/-- Piece by piece, a component is read up to `rest`. A piece is a character behind a backslash, a set in
brackets, or any other single character. -/
inductive ReadsTo (rest : List Char) : List Char → Prop where
  | here : ReadsTo rest rest
  | escaped {c : Char} {text : List Char} (htext : ReadsTo rest text) : ReadsTo rest ('\\' :: c :: text)
  | set {set : CharSet} {text after : List Char} (hset : charSet? text = some (set, after))
      (hafter : ReadsTo rest after) : ReadsTo rest ('[' :: text)
  | char {c : Char} {text : List Char} (hc : c ≠ '\\' ∧ c ≠ '[') (htext : ReadsTo rest text) :
      ReadsTo rest (c :: text)

/-- What is left where a component is read no further. It is read whatever the ranges in it. -/
def IsLeft : Option Fault → List Char → Prop
  | none, rest => rest = []
  | some .loneBackslash, rest => rest = ['\\']
  | some .openBracket, rest => ∃ text, rest = '[' :: text ∧ charSet? text = none
  | some (.badRange _ _), _ => False

def faultOf : Except Fault α → Option Fault
  | .ok _ => none
  | .error fault => some fault

@[simp]
theorem faultOf_map (f : α → β) (result : Except Fault α) : faultOf (result.map f) = faultOf result := by
  cases result <;> rfl

theorem faultOf_bind (result : Except Fault α) (next : α → Except Fault β) (later : Option Fault)
    (hnext : ∀ a, faultOf (next a) = later) :
    faultOf (result >>= next) = (faultOf result).or later := by
  cases result with
  | ok a => exact hnext a
  | error fault => rfl

theorem isLeft_nil_iff : IsLeft fault [] ↔ fault = none := by
  rcases fault with _ | _ | _ | _ <;> simp [IsLeft]

theorem isLeft_lone_iff : IsLeft fault ['\\'] ↔ fault = some .loneBackslash := by
  rcases fault with _ | _ | _ | _ <;> simp [IsLeft]

theorem isLeft_bracket_iff :
    IsLeft fault ('[' :: text) ↔ fault = some .openBracket ∧ charSet? text = none := by
  rcases fault with _ | _ | _ | _ <;> simp [IsLeft]

theorem not_isLeft_escaped {c : Char} : ¬IsLeft fault ('\\' :: c :: text) := by
  rcases fault with _ | _ | _ | _ <;> simp [IsLeft]

theorem not_isLeft_char {c : Char} (hc : c ≠ '\\' ∧ c ≠ '[') : ¬IsLeft fault (c :: text) := by
  rcases fault with _ | _ | _ | _ <;> simp [IsLeft, hc]

theorem exists_isLeft_nil_iff :
    (∃ rest, IsLeft fault rest ∧ ReadsTo rest []) ↔ fault = none := by
  constructor
  · rintro ⟨rest, hleft, ⟨⟩⟩
    exact isLeft_nil_iff.mp hleft
  · rintro rfl
    exact ⟨[], rfl, .here⟩

theorem exists_isLeft_lone_iff :
    (∃ rest, IsLeft fault rest ∧ ReadsTo rest ['\\']) ↔ fault = some .loneBackslash := by
  constructor
  · rintro ⟨rest, hleft, hreads⟩
    cases hreads with
    | here => exact isLeft_lone_iff.mp hleft
    | char hc htext => exact absurd rfl hc.1
  · rintro rfl
    exact ⟨['\\'], rfl, .here⟩

theorem exists_isLeft_escaped_iff {c : Char} :
    (∃ rest, IsLeft fault rest ∧ ReadsTo rest ('\\' :: c :: text)) ↔
      ∃ rest, IsLeft fault rest ∧ ReadsTo rest text := by
  constructor
  · rintro ⟨rest, hleft, hreads⟩
    cases hreads with
    | here => exact absurd hleft not_isLeft_escaped
    | escaped htext => exact ⟨rest, hleft, htext⟩
    | char hc htext => exact absurd rfl hc.1
  · rintro ⟨rest, hleft, hreads⟩
    exact ⟨rest, hleft, .escaped hreads⟩

theorem exists_isLeft_open_iff (hset : charSet? text = none) :
    (∃ rest, IsLeft fault rest ∧ ReadsTo rest ('[' :: text)) ↔ fault = some .openBracket := by
  constructor
  · rintro ⟨rest, hleft, hreads⟩
    cases hreads with
    | here => exact (isLeft_bracket_iff.mp hleft).1
    | set hother hafter => exact absurd (hset.symm.trans hother) (by simp)
    | char hc htext => exact absurd rfl hc.2
  · rintro rfl
    exact ⟨'[' :: text, ⟨text, rfl, hset⟩, .here⟩

theorem exists_isLeft_set_iff {set : CharSet} {after : List Char}
    (hset : charSet? text = some (set, after)) :
    (∃ rest, IsLeft fault rest ∧ ReadsTo rest ('[' :: text)) ↔
      ∃ rest, IsLeft fault rest ∧ ReadsTo rest after := by
  constructor
  · rintro ⟨rest, hleft, hreads⟩
    cases hreads with
    | here => exact absurd (hset.symm.trans (isLeft_bracket_iff.mp hleft).2) (by simp)
    | set hother hafter =>
      obtain ⟨rfl, rfl⟩ := Prod.mk.inj (Option.some.inj (hset.symm.trans hother))
      exact ⟨rest, hleft, hafter⟩
    | char hc htext => exact absurd rfl hc.2
  · rintro ⟨rest, hleft, hreads⟩
    exact ⟨rest, hleft, .set hset hreads⟩

theorem exists_isLeft_char_iff {c : Char} (hc : c ≠ '\\' ∧ c ≠ '[') :
    (∃ rest, IsLeft fault rest ∧ ReadsTo rest (c :: text)) ↔
      ∃ rest, IsLeft fault rest ∧ ReadsTo rest text := by
  constructor
  · rintro ⟨rest, hleft, hreads⟩
    cases hreads with
    | here => exact absurd hleft (not_isLeft_char hc)
    | escaped htext => exact absurd rfl hc.1
    | set hset hafter => exact absurd rfl hc.2
    | char _ htext => exact ⟨rest, hleft, htext⟩
  · rintro ⟨rest, hleft, hreads⟩
    exact ⟨rest, hleft, .char hc hreads⟩

/-- **What a component fails for** is what stands where it is read no further. -/
theorem faultOf_glob?_eq_iff (component : List Char) (fault : Option Fault) :
    faultOf (glob? component) = fault ↔ ∃ rest, IsLeft fault rest ∧ ReadsTo rest component := by
  -- by the recursion of the reader: each of its cases reads one piece or stops
  fun_induction glob? component with
  | case1 => rw [exists_isLeft_nil_iff, faultOf, eq_comm]
  | case2 => rw [exists_isLeft_lone_iff, faultOf, eq_comm]
  | case3 c text ih => rw [faultOf_map, ih, exists_isLeft_escaped_iff]
  | case4 text ih | case5 text ih => rw [faultOf_map, ih, exists_isLeft_char_iff (by decide)]
  | case6 text hset => rw [exists_isLeft_open_iff hset, faultOf, eq_comm]
  | case7 text set after hset ih => rw [faultOf_map, ih, exists_isLeft_set_iff hset]
  | case8 c text hlone hescaped hstar hany hbracket ih =>
    rw [faultOf_map, ih, exists_isLeft_char_iff ⟨ne_backslash_of_reads hlone hescaped, hbracket⟩]

/-! ### Lines -/

def firstFault? (components : List (List Char)) : Option Fault :=
  components.findSome? fun component => faultOf (glob? component)

/-- What is wrong with a line: a component that is not read to its end, or else a range that ends before it
begins. -/
def lineFault? (components : List (List Char)) : Option Fault :=
  (firstFault? components).or
    ((reversedRange? (components.flatMap rangesIn)).map fun range => .badRange range.1 range.2)

theorem firstFault?_cons (component : List Char) (rest : List (List Char)) :
    firstFault? (component :: rest) = (faultOf (glob? component)).or (firstFault? rest) := by
  rw [firstFault?, List.findSome?_cons]
  cases faultOf (glob? component) <;> rfl

theorem faultOf_glob?_nil : faultOf (glob? []) = none := by
  rw [glob?]
  rfl

theorem faultOf_glob?_star : faultOf (glob? ['*']) = none := by
  rw [glob?, faultOf_map, faultOf_glob?_nil]

theorem faultOf_glob?_anyDepth : faultOf (glob? Pattern.anyDepth) = none := by
  rw [Pattern.anyDepth, glob?, faultOf_map, faultOf_glob?_star]

theorem faultOf_components? (isFirst afterSlash : Bool) (components : List (List Char)) :
    faultOf (Pattern.components? isFirst afterSlash components) = firstFault? components := by
  induction components generalizing isFirst afterSlash with
  | nil => rfl
  | cons component rest ih =>
    rw [Pattern.components?, firstFault?_cons]
    split
    · rename_i hany
      rw [hany, faultOf_glob?_anyDepth, Option.none_or]
      split
      · rw [faultOf_map, ih]
      · split
        · rename_i hrest
          rw [List.isEmpty_iff.mp hrest]
          rfl
        · rw [faultOf_map, ih]
    · have hrest : ∀ front : List Regex, faultOf (Pattern.components? false true rest >>= fun later =>
          pure (front ++ later)) = firstFault? rest := by
        intro front
        rw [faultOf_bind _ _ none fun later => rfl, ih, Option.or_none]
      dsimp only
      split
      · rename_i hstar
        rw [hstar, faultOf_glob?_star]
        exact hrest _
      · exact faultOf_bind _ _ _ fun here => hrest _

theorem faultOf_expression? (isDirectory : Bool) (components : List (List Char)) :
    faultOf (Pattern.expression? isDirectory components) = lineFault? components := by
  have hnone : lineFault? [Pattern.anyDepth] = none ∧ lineFault? [Pattern.anyDepth, ['*']] = none ∧
      lineFault? [Pattern.anyDepth, ['*'], Pattern.anyDepth] = none := by
    refine ⟨?_, ?_, ?_⟩
    all_goals
      rw [lineFault?, reversedRange?_of_not_mem (by decide)]
      simp only [firstFault?_cons, faultOf_glob?_anyDepth, faultOf_glob?_star]
      rfl
  unfold Pattern.expression?
  split
  · rename_i heq
    rw [heq, hnone.1]
    rfl
  split
  · rename_i heq
    rw [heq, hnone.2.1]
    rfl
  split
  · rename_i heq
    rw [heq, hnone.2.2]
    rfl
  · rw [lineFault?, ← faultOf_components? true false]
    refine faultOf_bind _ _ _ fun parts => ?_
    cases reversedRange? (components.flatMap rangesIn) <;> rfl

section Collected

variable {f : List Char → List β}

theorem flatMap_mergeAnyDepth (hany : f Pattern.anyDepth = []) (components : List (List Char)) :
    (Pattern.mergeAnyDepth components).flatMap f = components.flatMap f := by
  induction components with
  | nil => rfl
  | cons component rest ih =>
    rw [Pattern.mergeAnyDepth, List.flatMap_cons]
    split
    · rename_i hmerged
      simp only [Bool.and_eq_true, decide_eq_true_eq] at hmerged
      rw [hmerged.1, hany, List.nil_append, ih]
    · rw [List.flatMap_cons, ih]

theorem flatMap_openEnd (hnil : f [] = []) (hany : f Pattern.anyDepth = []) (components : List (List Char)) :
    (Pattern.openEnd components).flatMap f = components.flatMap f := by
  unfold Pattern.openEnd
  split
  · rename_i hlast
    obtain ⟨front, rfl⟩ := List.getLast?_eq_some_iff.mp hlast
    rw [List.dropLast_concat, List.flatMap_append, List.flatMap_append, List.flatMap_singleton,
      List.flatMap_singleton, hnil, hany]
  · rfl

theorem flatMap_anchorComponents (hnil : f [] = []) (hany : f Pattern.anyDepth = [])
    (components : List (List Char)) :
    (Pattern.anchorComponents components).flatMap f = components.flatMap f := by
  have hlead : ∀ rest, (Pattern.anyDepth :: rest).flatMap f = rest.flatMap f := fun rest => by
    rw [List.flatMap_cons, hany, List.nil_append]
  unfold Pattern.anchorComponents
  split
  · rw [List.flatMap_cons, hnil, List.nil_append]
  · split
    · rfl
    · rw [hlead]
  · split
    · rfl
    · rw [hlead]
  · rfl

end Collected

theorem firstFault?_eq_head? (components : List (List Char)) :
    firstFault? components = (components.flatMap fun component => (faultOf (glob? component)).toList).head? := by
  simp only [firstFault?, List.head?_flatMap, Option.head?_toList]

/-- The components of a line have the faults of its expression. -/
theorem lineFault?_lineComponents (first : Char) (rest : List Char) :
    lineFault? (lineComponents first rest) = faultOf (lineExpression? first rest) := by
  have hsame : ∀ {γ : Type} {f : List Char → List γ}, f [] = [] → f Pattern.anyDepth = [] →
      (Pattern.mergeAnyDepth (Pattern.openEnd
        (Pattern.anchorComponents (lineComponents first rest)))).flatMap f =
          (lineComponents first rest).flatMap f := fun hnil hany => by
    rw [flatMap_mergeAnyDepth hany, flatMap_openEnd hnil hany, flatMap_anchorComponents hnil hany]
  rw [lineExpression?, faultOf_expression?, lineFault?, lineFault?, firstFault?_eq_head?,
    firstFault?_eq_head?, hsame (by rw [faultOf_glob?_nil]; rfl) (by rw [faultOf_glob?_anyDepth]; rfl),
    hsame (rangesIn_of_not_mem (by decide)) (rangesIn_of_not_mem (by decide))]

def lineParts (text : List Char) : List (List Char) :=
  splitAtEach (· == '/') (if text.head? = some '!' then text.tail else text)

inductive LineFails (line : String) : PatternError → Prop where
  /-- It is a mark with nothing behind it. -/
  | mark (htrim : Pattern.trim line.toList = ['!']) : LineFails line (.notPattern line)
  /-- Its first component that is not read to its end stops at a last backslash. -/
  | backslash {front back : List (List Char)} {component : List Char}
      (hremark : (Pattern.trim line.toList).head? ≠ some '#')
      (hparts : lineParts (Pattern.trim line.toList) = front ++ component :: back)
      (hfront : ∀ other ∈ front, ReadsTo [] other) (hcomponent : ReadsTo ['\\'] component) :
      LineFails line (.notPattern line)
  /-- All its components are read, and of their ranges this is the first that ends before it begins. -/
  | range {front back : List (Char × Char)} {low high : Char}
      (hremark : (Pattern.trim line.toList).head? ≠ some '#')
      (hread : ∀ component ∈ lineParts (Pattern.trim line.toList), ReadsTo [] component)
      (hranges : (lineParts (Pattern.trim line.toList)).flatMap rangesIn = front ++ (low, high) :: back)
      (hfront : ∀ other ∈ front, other.1 ≤ other.2) (hreversed : high < low) :
      LineFails line (.badRange low high)

theorem readsTo_nil_iff : ReadsTo [] component ↔ faultOf (glob? component) = none := by
  simp [faultOf_glob?_eq_iff, IsLeft]

theorem readsTo_lone_iff : ReadsTo ['\\'] component ↔ faultOf (glob? component) = some .loneBackslash := by
  simp [faultOf_glob?_eq_iff, IsLeft]

theorem faultOf_glob?_ne_badRange (component : List Char) (low high : Char) :
    faultOf (glob? component) ≠ some (.badRange low high) := by
  rw [Ne, faultOf_glob?_eq_iff]
  rintro ⟨_, ⟨⟩, -⟩

theorem firstFault?_eq_none_iff :
    firstFault? components = none ↔ ∀ component ∈ components, ReadsTo [] component := by
  simp only [firstFault?, List.findSome?_eq_none_iff, readsTo_nil_iff]

theorem lineFault?_eq_lone_iff : lineFault? components = some .loneBackslash ↔
    ∃ front component back, components = front ++ component :: back ∧
      (∀ other ∈ front, ReadsTo [] other) ∧ ReadsTo ['\\'] component := by
  have hfirst : lineFault? components = some .loneBackslash ↔
      firstFault? components = some .loneBackslash := by
    rw [lineFault?]
    cases firstFault? components <;> simp
  simp only [hfirst, firstFault?, List.findSome?_eq_some_iff, ← readsTo_lone_iff, ← readsTo_nil_iff]
  constructor
  · rintro ⟨front, component, back, heq, hcomponent, hfront⟩
    exact ⟨front, component, back, heq, hfront, hcomponent⟩
  · rintro ⟨front, component, back, heq, hfront, hcomponent⟩
    exact ⟨front, component, back, heq, hcomponent, hfront⟩

theorem reversedRange?_eq_some_iff {ranges : List (Char × Char)} {low high : Char} :
    reversedRange? ranges = some (low, high) ↔ ∃ front back, ranges = front ++ (low, high) :: back ∧
      (∀ other ∈ front, other.1 ≤ other.2) ∧ high < low := by
  simp only [reversedRange?, List.find?_eq_some_iff_append, decide_eq_true_eq, Bool.not_eq_true',
    decide_eq_false_iff_not, Char.not_lt]
  constructor
  · rintro ⟨hreversed, front, back, hranges, hfront⟩
    exact ⟨front, back, hranges, hfront, hreversed⟩
  · rintro ⟨front, back, hranges, hfront, hreversed⟩
    exact ⟨hreversed, front, back, hranges, hfront⟩

theorem lineFault?_eq_badRange_iff {low high : Char} : lineFault? components = some (.badRange low high) ↔
    (∀ component ∈ components, ReadsTo [] component) ∧
      ∃ front back, components.flatMap rangesIn = front ++ (low, high) :: back ∧
        (∀ other ∈ front, other.1 ≤ other.2) ∧ high < low := by
  have hfirst : firstFault? components ≠ some (.badRange low high) := by
    intro heq
    obtain ⟨component, -, hfault⟩ := List.exists_of_findSome?_eq_some heq
    exact faultOf_glob?_ne_badRange component low high hfault
  rw [← firstFault?_eq_none_iff, ← reversedRange?_eq_some_iff, lineFault?, Option.or_eq_some_iff,
    or_iff_right hfirst, Option.map_eq_some_iff]
  refine and_congr_right fun _ => ?_
  constructor
  · rintro ⟨range, hrange, heq⟩
    obtain ⟨rfl, rfl⟩ := Fault.badRange.inj heq
    exact hrange
  · exact fun hrange => ⟨_, hrange, rfl⟩

theorem lineFails_iff {line : String} {error : PatternError} : LineFails line error ↔
    error = .notPattern line ∧ (Pattern.trim line.toList = ['!'] ∨
      (Pattern.trim line.toList).head? ≠ some '#' ∧
        lineFault? (lineParts (Pattern.trim line.toList)) = some .loneBackslash) ∨
    ∃ low high, error = .badRange low high ∧ (Pattern.trim line.toList).head? ≠ some '#' ∧
      lineFault? (lineParts (Pattern.trim line.toList)) = some (.badRange low high) := by
  simp only [lineFault?_eq_lone_iff, lineFault?_eq_badRange_iff]
  constructor
  · rintro (htrim | ⟨hremark, hparts, hfront, hcomponent⟩ | ⟨hremark, hread, hranges, hfront, hreversed⟩)
    · exact .inl ⟨rfl, .inl htrim⟩
    · exact .inl ⟨rfl, .inr ⟨hremark, _, _, _, hparts, hfront, hcomponent⟩⟩
    · exact .inr ⟨_, _, rfl, hremark, hread, _, _, hranges, hfront, hreversed⟩
  · rintro (⟨rfl, htrim | ⟨hremark, _, _, _, hparts, hfront, hcomponent⟩⟩ |
      ⟨_, _, rfl, hremark, hread, _, _, hranges, hfront, hreversed⟩)
    · exact .mark htrim
    · exact .backslash hremark hparts hfront hcomponent
    · exact .range hremark hread hranges hfront hreversed

theorem lineParts_cons (first : Char) (rest : List Char) :
    lineParts (first :: rest) = lineComponents first rest := by
  simp [lineParts, lineComponents]

theorem anchorComponents_eq_nil_iff (hne : components ≠ []) :
    Pattern.anchorComponents components = [] ↔ components = [[]] := by
  unfold Pattern.anchorComponents
  split
  · simp
  · split <;> simp_all
  · split <;> simp_all
  · simp_all

theorem lineComponents_eq_singleton_iff (first : Char) (rest : List Char) :
    lineComponents first rest = [[]] ↔ first :: rest = ['!'] := by
  have hsplit : ∀ text : List Char, splitAtEach (· == '/') text = [[]] ↔ text = [] := by
    intro text
    constructor
    · intro heq
      obtain ⟨parts, last, hparts, htext⟩ := exists_endEach_append '/' text
      obtain ⟨rfl, hlast⟩ :=
        (List.append_eq_singleton_iff.mp (hparts.symm.trans heq)).resolve_right (by simp)
      rw [htext, List.singleton_inj.mp hlast, endEach_nil, List.nil_append]
    · rintro rfl
      rfl
  unfold lineComponents
  split
  · rename_i hmark
    rw [beq_iff_eq] at hmark
    rw [hsplit, hmark]
    simp
  · rename_i hmark
    rw [hsplit]
    simp_all

theorem anchorComponents_lineComponents_eq_nil_iff (first : Char) (rest : List Char) :
    Pattern.anchorComponents (lineComponents first rest) = [] ↔ first :: rest = ['!'] :=
  (anchorComponents_eq_nil_iff (splitAtEach_ne_nil _ _)).trans (lineComponents_eq_singleton_iff first rest)

/-- A line with components fails as its expression does. -/
theorem lineFails_iff_of_anchored {line : String} {first : Char} {rest : List Char} {error : PatternError}
    (htrim : Pattern.trim line.toList = first :: rest) (hremark : first ≠ '#')
    (hanchored : Pattern.anchorComponents (lineComponents first rest) ≠ []) :
    LineFails line error ↔
      error = .notPattern line ∧ faultOf (lineExpression? first rest) = some .loneBackslash ∨
      ∃ low high, error = .badRange low high ∧
        faultOf (lineExpression? first rest) = some (.badRange low high) := by
  rw [Ne, anchorComponents_lineComponents_eq_nil_iff] at hanchored
  simp only [lineFails_iff, htrim, lineParts_cons, lineFault?_lineComponents, or_iff_right hanchored,
    List.head?_cons, Ne, Option.some_inj, hremark, not_false_eq_true, true_and]

/-- **What makes no expression.** A line is refused just where it fails, with that error. -/
theorem parse?_eq_error_iff {line : String} {error : PatternError} :
    Pattern.parse? line = .error error ↔ LineFails line error := by
  have hnone : lineFault? [[]] = none ∧ lineFault? [[], []] = none := by
    constructor
    all_goals
      rw [lineFault?, reversedRange?_of_not_mem (by decide)]
      simp only [firstFault?_cons, faultOf_glob?_nil]
      rfl
  have hparses := parses_parse? line
  generalize Pattern.parse? line = result at hparses ⊢
  cases hparses with
  | blank htrim =>
    have hparts : lineParts [] = [[]] := rfl
    simp [lineFails_iff, htrim, hparts, hnone]
  | remark htrim => simp [lineFails_iff, htrim]
  | slash htrim =>
    have hparts : lineParts ['/'] = [[], []] := rfl
    simp [lineFails_iff, htrim, hparts, hnone]
  | noComponents htrim hremark hanchored =>
    rw [anchorComponents_lineComponents_eq_nil_iff] at hanchored
    have hparts : lineParts ['!'] = [[]] := rfl
    simp [lineFails_iff, htrim, hanchored, hparts, hnone, eq_comm]
  | pattern htrim hremark hanchored hregex =>
    simp [lineFails_iff_of_anchored htrim hremark hanchored, hregex, faultOf]
  | openBracket htrim hremark hanchored hregex =>
    simp [lineFails_iff_of_anchored htrim hremark hanchored, hregex, faultOf]
  | loneBackslash htrim hremark hanchored hregex =>
    simp [lineFails_iff_of_anchored htrim hremark hanchored, hregex, faultOf, eq_comm]
  | badRange htrim hremark hanchored hregex =>
    simp [lineFails_iff_of_anchored htrim hremark hanchored, hregex, faultOf, eq_comm]

/-- Of several lines the first one that fails decides. -/
theorem parsePatterns_eq_error_iff {lines : List String} {error : PatternError} :
    parsePatterns lines = .error error ↔ ∃ front line back, lines = front ++ line :: back ∧
      (∀ other ∈ front, ∀ error, ¬LineFails other error) ∧ LineFails line error := by
  induction lines with
  | nil => simp [parsePatterns]
  | cons line lines ih =>
    have hgood : (∃ pattern, Pattern.parse? line = .ok pattern) ↔ ∀ error, ¬LineFails line error := by
      simp only [← parse?_eq_error_iff]
      cases Pattern.parse? line <;> simp
    rw [parsePatterns]
    simp only [except_bind_eq_error_iff]
    constructor
    · rintro (hfirst | ⟨pattern, hfirst, hrest | ⟨_, -, ⟨⟩⟩⟩)
      · exact ⟨[], line, lines, rfl, by simp, parse?_eq_error_iff.mp hfirst⟩
      · obtain ⟨front, other, back, rfl, hfront, hfails⟩ := ih.mp hrest
        exact ⟨line :: front, other, back, rfl,
          List.forall_mem_cons.mpr ⟨hgood.mp ⟨pattern, hfirst⟩, hfront⟩, hfails⟩
    · rintro ⟨front, other, back, heq, hfront, hfails⟩
      cases front with
      | nil =>
        obtain ⟨rfl, rfl⟩ := List.cons.inj heq
        exact .inl (parse?_eq_error_iff.mpr hfails)
      | cons first front =>
        obtain ⟨rfl, rfl⟩ := List.cons.inj heq
        obtain ⟨hline, hfront⟩ := List.forall_mem_cons.mp hfront
        obtain ⟨pattern, hfirst⟩ := hgood.mpr hline
        exact .inr ⟨pattern, hfirst, .inl (ih.mpr ⟨front, other, back, rfl, hfront, hfails⟩)⟩

end EnvFill.Ignore

namespace EnvFill.Project

open Storage Ignore Text

/-- Why the bytes of an ignore file cannot be read: they are no text, or one of the lines makes no
expression. -/
inductive IgnoreFileFails (bytes : List UInt8) : Error → Prop where
  | notText (htext : ∀ text, unifyLineEnds bytes ≠ Utf8.encodeText text) : IgnoreFileFails bytes .notUtf8
  | badLine {text : List Char} {front back : List String} {line : String}
      (htext : unifyLineEnds bytes = Utf8.encodeText text)
      (hlines : (endedLines text).map String.ofList = front ++ line :: back)
      {error : PatternError} (hfront : ∀ other ∈ front, ∀ error, ¬LineFails other error)
      (hline : LineFails line error) : IgnoreFileFails bytes (.badPattern error)

/-- **What is no ignore file.** -/
theorem ignorePatterns_eq_error_iff {bytes : List UInt8} {error : Error} :
    ignorePatterns bytes = .error error ↔ IgnoreFileFails bytes error := by
  unfold ignorePatterns
  cases hdecode : Utf8.decodeStrict? (unifyLineEnds bytes) with
  | none =>
    have hnone : ∀ text, unifyLineEnds bytes ≠ Utf8.encodeText text := by
      intro text heq
      rw [Utf8.decodeStrict?_eq_some_iff_encodeText.mpr heq] at hdecode
      cases hdecode
    constructor
    · rintro ⟨⟩
      exact .notText hnone
    · rintro (htext | ⟨htext, -, -, -⟩)
      · rfl
      · exact absurd htext (hnone _)
  | some text =>
    have htext := Utf8.decodeStrict?_eq_some_iff_encodeText.mp hdecode
    dsimp only
    constructor
    · intro hfail
      obtain ⟨fault, hparse, rfl⟩ := except_mapError_eq_error_iff.mp hfail
      obtain ⟨front, line, back, hlines, hfront, hline⟩ := parsePatterns_eq_error_iff.mp hparse
      exact .badLine htext hlines hfront hline
    · rintro (hnone | ⟨hother, hlines, hfront, hline⟩)
      · exact absurd htext (hnone text)
      · rw [Utf8.decodeStrict?_eq_some_iff_encodeText.mpr hother] at hdecode
        obtain rfl := Option.some.inj hdecode
        exact except_mapError_eq_error_iff.mpr
          ⟨_, parsePatterns_eq_error_iff.mpr ⟨_, _, _, hlines, hfront, hline⟩, rfl⟩

/-- What an ignore file says of a path. -/
theorem isIgnored?_eq_of_bytes {disk : Disk} {project path : Pathname} {bytes : List UInt8}
    (hbytes : disk.bytes? (project.join (.ofString ".gitignore")) = .ok (some bytes)) :
    isIgnored? disk project path = ignorePatterns bytes >>= fun patterns =>
      pure (some ((ScanFilter.visiblePath? project path).any (ignores patterns))) := by
  unfold isIgnored?
  rw [hbytes]
  rfl

theorem IgnoreFileFails.unique {bytes : List UInt8} {error other : Error} (herror : IgnoreFileFails bytes error)
    (hother : IgnoreFileFails bytes other) : error = other :=
  Except.error.inj
    ((ignorePatterns_eq_error_iff.mpr herror).symm.trans (ignorePatterns_eq_error_iff.mpr hother))

/-- Users are not told about it. -/
theorem IgnoreFileFails.isReported_eq {bytes : List UInt8} {error : Error}
    (hfails : IgnoreFileFails bytes error) : error.isReported = false := by
  cases hfails <;> rfl

end EnvFill.Project
