import EnvFill.Proofs.Globs
import EnvFill.Proofs.PatternLines
import EnvFill.Proofs.SeenPaths

/-!
# Patterns on directories and below them

A path of a directory ends in a slash. A pattern without brackets that matches it does so with what
comes before that slash, or with stars that may as well take what comes after it, so it matches every
longer path too.
-/

namespace EnvFill.Regex

open Text

variable {regex first second : Regex} {before : Option Char} {text : List Char}
  {regexes front back : List Regex}

/-- Whatever the expression takes does not depend on what follows. -/
def IgnoresRest (regex : Regex) : Prop :=
  ∀ before taken rest captured other, Takes regex before taken rest captured →
    Takes regex before taken other captured

theorem ignoresRest_one (accepts : Char → Bool) : IgnoresRest (.one accepts) := by
  intro before taken rest captured other htakes
  rw [takes_one_iff] at htakes ⊢
  exact htakes

theorem ignoresRest_oneOrMore (accepts : Char → Bool) : IgnoresRest (oneOrMore accepts) := by
  intro before taken rest captured other htakes
  rw [takes_oneOrMore_iff] at htakes ⊢
  exact htakes

theorem ignoresRest_start : IgnoresRest start := by
  intro before taken rest captured other htakes
  rw [start, takes_place_iff] at htakes ⊢
  exact htakes

theorem IgnoresRest.seq (hfirst : IgnoresRest first) (hsecond : IgnoresRest second) :
    IgnoresRest (.seq first second) := by
  intro before taken rest captured other htakes
  rw [takes_seq_iff] at htakes ⊢
  obtain ⟨front, back, inFirst, inSecond, htaken, hfront, hback, hcaptured⟩ := htakes
  exact ⟨front, back, inFirst, inSecond, htaken, hfirst _ _ _ _ _ hfront, hsecond _ _ _ _ _ hback,
    hcaptured⟩

theorem IgnoresRest.maybe (hregex : IgnoresRest regex) : IgnoresRest (maybe regex) := by
  intro before taken rest captured other htakes
  rw [takes_maybe_iff] at htakes ⊢
  exact htakes.imp_left (hregex before taken rest captured other)

def EndsInSlash (before : Option Char) (text : List Char) : Prop :=
  ∀ c, lastOr before text = some c → c = '/'

theorem EndsInSlash.eq_nil (hends : EndsInSlash before text) (hslash : '/' ∉ text) : text = [] := by
  rcases List.eq_nil_or_concat text with hnil | ⟨init, c, rfl⟩
  · exact hnil
  · obtain rfl : c = '/' := hends c (by simp [lastOr])
    exact absurd (by simp) hslash

/-- Where the expression matches before text that ends in a slash, it matches before more text. -/
def GoesOn (regex : Regex) : Prop :=
  ∀ before text more, EndsInSlash before text → regex.run before text ≠ [] →
    regex.run before (text ++ more) ≠ []

theorem IgnoresRest.goesOn (hregex : IgnoresRest regex) : GoesOn regex := by
  intro before text more _ hrun
  rw [run_ne_nil_iff] at hrun ⊢
  obtain ⟨taken, rest, captured, rfl, htakes⟩ := hrun
  exact ⟨taken, rest ++ more, captured, List.append_assoc taken rest more,
    hregex _ _ _ _ _ htakes⟩

theorem IgnoresRest.seq_goesOn (hfirst : IgnoresRest first) (hsecond : GoesOn second) :
    GoesOn (.seq first second) := by
  intro before text more hends hrun
  rw [run_ne_nil_iff] at hrun ⊢
  obtain ⟨taken, rest, captured, rfl, htakes⟩ := hrun
  obtain ⟨front, back, inFirst, inSecond, rfl, hfront, hback, -⟩ := takes_seq_iff.mp htakes
  have hlater : EndsInSlash (lastOr before front) (back ++ rest) := by
    intro c hc
    apply hends c
    rwa [List.append_assoc, lastOr_append]
  have hmore := hsecond _ _ more hlater (run_ne_nil_iff.mpr ⟨back, rest, inSecond, rfl, hback⟩)
  obtain ⟨taken, after, inMore, htext, htaken⟩ := run_ne_nil_iff.mp hmore
  refine ⟨front ++ taken, after, inMore.or inFirst, ?_, ?_⟩
  · calc
      front ++ back ++ rest ++ more = front ++ (back ++ rest ++ more) := by simp
      _ = front ++ (taken ++ after) := by rw [htext]
      _ = front ++ taken ++ after := (List.append_assoc front taken after).symm
  · exact takes_seq_iff.mpr ⟨front, taken, inFirst, inMore, rfl, hfirst _ _ _ _ _ hfront, htaken, rfl⟩

theorem goesOn_inOrder_append (hfront : ∀ regex ∈ front, IgnoresRest regex)
    (hback : GoesOn (inOrder back)) : GoesOn (inOrder (front ++ back)) := by
  induction front with
  | nil => exact hback
  | cons regex front ih =>
    have hseq : GoesOn (.seq regex (inOrder (front ++ back))) :=
      (hfront regex List.mem_cons_self).seq_goesOn
        (ih fun other hother => hfront other (List.mem_cons_of_mem regex hother))
    intro before text more hends hrun
    have hcongr : ∀ text, (inOrder (regex :: (front ++ back))).run before text ≠ [] ↔
        (Regex.seq regex (inOrder (front ++ back))).run before text ≠ [] := by
      intro text
      simp only [run_ne_nil_iff, takes_inOrder_cons_iff]
    rw [List.cons_append, hcongr] at hrun ⊢
    exact hseq before text more hends hrun

theorem goesOn_inOrder (hregexes : ∀ regex ∈ regexes, IgnoresRest regex) :
    GoesOn (inOrder regexes) := by
  have hempty : GoesOn (inOrder []) := by
    intro before text more _ _
    exact List.cons_ne_nil _ _
  rw [← List.append_nil regexes]
  exact goesOn_inOrder_append hregexes hempty

theorem GoesOn.occursIn_longer {longer : List Char} (hregex : GoesOn regex)
    (hends : EndsInSlash none text) (hbegins : text <+: longer) (hoccurs : regex.occursIn text = true) :
    regex.occursIn longer = true := by
  obtain ⟨more, rfl⟩ := hbegins
  rw [occursIn_iff] at hoccurs ⊢
  obtain ⟨front, back, rfl, hrun⟩ := hoccurs
  refine ⟨front, back ++ more, (List.append_assoc front back more).symm, hregex _ _ more ?_ hrun⟩
  intro c hc
  apply hends c
  rw [lastOr_append]
  simpa [lastOr] using hc

end EnvFill.Regex

namespace EnvFill.Ignore

open Regex Storage Text

variable {regex : Regex} {component text more : List Char}

/-- The expression for a component: it takes no slash, and if it can take nothing it can take all up to
the next slash. -/
structure IsComponent (regex : Regex) : Prop where
  ignoresRest : IgnoresRest regex
  slash_not_mem : ∀ before taken rest captured, Takes regex before taken rest captured → '/' ∉ taken
  of_nil : ∀ before rest captured, Takes regex before [] rest captured →
    ∀ taken other, taken.all notSlash = true → Takes regex before taken other none

theorem ignoresRest_glob? (hglob : glob? component = .ok regex) : IgnoresRest regex := by
  intro before taken rest captured other htakes
  rw [takes_glob?_iff hglob] at htakes ⊢
  exact htakes

theorem isComponent_glob? (hglob : glob? component = .ok regex) (hne : component ≠ [])
    (hslash : '/' ∉ component) (hbracket : '[' ∉ component) : IsComponent regex where
  ignoresRest := ignoresRest_glob? hglob
  slash_not_mem := by
    intro before taken rest captured htakes
    exact ((takes_glob?_iff hglob).mp htakes).1.slash_not_mem hslash hbracket
  of_nil := by
    intro before rest captured htakes taken other htaken
    have hstands := ((takes_glob?_iff hglob).mp htakes).1
    exact (takes_glob?_iff hglob).mpr ⟨hstands.of_nil hne htaken, rfl⟩

theorem isComponent_star : IsComponent (oneOrMore notSlash) where
  ignoresRest := ignoresRest_oneOrMore notSlash
  slash_not_mem := by
    intro before taken rest captured htakes hmem
    obtain ⟨-, htaken, -⟩ := takes_oneOrMore_iff.mp htakes
    simpa [notSlash] using List.all_eq_true.mp htaken '/' hmem
  of_nil := by
    intro before rest captured htakes
    exact absurd rfl (takes_oneOrMore_iff.mp htakes).1

theorem exists_takes_end (before : Option Char) (text : List Char) :
    ∃ back after, text.dropWhile notSlash = back ++ after ∧
      Takes (.alt Pattern.slash stop) before back after none := by
  have hnot := List.head?_dropWhile_not notSlash text
  cases hrest : text.dropWhile notSlash with
  | nil =>
    refine ⟨[], [], rfl, takes_alt_iff.mpr (.inr ?_)⟩
    rw [stop, takes_place_iff]
    exact ⟨rfl, rfl, rfl⟩
  | cons c after =>
    refine ⟨[c], after, rfl, takes_alt_iff.mpr (.inl ?_)⟩
    rw [Pattern.slash, takes_one_iff]
    rw [hrest] at hnot
    exact ⟨c, by simpa [notSlash] using hnot, rfl, rfl⟩

/-- The last component may be followed by the end of the path or by a slash. -/
theorem IsComponent.goesOn_last (hregex : IsComponent regex) :
    GoesOn (inOrder [regex, .alt Pattern.slash stop]) := by
  intro before text more hends hrun
  rw [run_ne_nil_iff] at hrun ⊢
  obtain ⟨taken, rest, captured, rfl, htakes⟩ := hrun
  obtain ⟨front, back, inFirst, inSecond, rfl, hfront, hback, -⟩ := takes_seq_iff.mp htakes
  rcases takes_alt_iff.mp hback with hslash | hstop
  · -- A slash follows, whatever comes after it.
    refine ⟨front ++ back, rest ++ more, inSecond.or inFirst, by simp, takes_seq_iff.mpr ?_⟩
    exact ⟨front, back, inFirst, inSecond, rfl, hregex.ignoresRest _ _ _ _ _ hfront,
      takes_alt_iff.mpr (.inl (ignoresRest_one _ _ _ _ _ _ hslash)), rfl⟩
  · rw [stop, takes_place_iff] at hstop
    obtain ⟨hstop, rfl, rfl⟩ := hstop
    rw [List.append_nil] at hends ⊢
    obtain rfl : rest = [] := by
      rcases Bool.or_eq_true_iff.mp hstop with hempty | hlf
      · exact List.isEmpty_iff.mp hempty
      · obtain rfl : rest = ['\n'] := by simpa using hlf
        exact absurd (hends '\n' (by simp [lastOr])) (by decide)
    -- What ends in a slash and holds none is empty, so the component takes what it can.
    obtain rfl : front = [] := by
      rw [List.append_nil] at hends
      exact hends.eq_nil (hregex.slash_not_mem _ _ _ _ hfront)
    have htaken := hregex.of_nil _ _ _ hfront (more.takeWhile notSlash) (more.dropWhile notSlash)
      List.all_takeWhile
    have hmore := List.takeWhile_append_dropWhile (p := notSlash) (l := more)
    obtain ⟨back, after, hback, hnext⟩ := exists_takes_end (lastOr before (more.takeWhile notSlash)) more
    rw [hback] at htaken
    refine ⟨more.takeWhile notSlash ++ back, after, none, ?_, takes_seq_iff.mpr ?_⟩
    · calc
        [] ++ [] ++ more = more.takeWhile notSlash ++ more.dropWhile notSlash := by simp [hmore]
        _ = more.takeWhile notSlash ++ back ++ after := by rw [hback, List.append_assoc]
    · exact ⟨_, back, none, none, rfl, htaken, hnext, rfl⟩

def HasNoBrackets (components : List (List Char)) : Prop :=
  ∀ component ∈ components, '/' ∉ component ∧ '[' ∉ component

/-- The expressions for a component other than `**`, and for those after it. -/
theorem exists_of_components?_cons {rest : List (List Char)} {isFirst afterSlash : Bool}
    {regexes : List Regex} (hdepth : component ≠ Pattern.anyDepth) (hslash : '/' ∉ component)
    (hbracket : '[' ∉ component)
    (hregexes : Pattern.components? isFirst afterSlash (component :: rest) = .ok regexes) :
    ∃ here later, IgnoresRest here ∧ (component ≠ [] → IsComponent here) ∧
      Pattern.components? false true rest = .ok later ∧
        regexes = (if isFirst then [start] else []) ++ (if afterSlash then [Pattern.slash] else []) ++
          [here] ++ (if rest.isEmpty then [.alt Pattern.slash stop] else []) ++ later := by
  rw [Pattern.components?, if_neg hdepth] at hregexes
  dsimp only at hregexes
  split at hregexes
  · obtain ⟨here, hhere, hregexes⟩ := except_bind_eq_ok_iff.mp hregexes
    obtain ⟨later, hlater, hregexes⟩ := except_bind_eq_ok_iff.mp hregexes
    obtain rfl := Except.ok.inj hhere
    exact ⟨_, later, isComponent_star.ignoresRest, fun _ => isComponent_star, hlater,
      (Except.ok.inj hregexes).symm⟩
  · obtain ⟨here, hhere, hregexes⟩ := except_bind_eq_ok_iff.mp hregexes
    obtain ⟨later, hlater, hregexes⟩ := except_bind_eq_ok_iff.mp hregexes
    exact ⟨here, later, ignoresRest_glob? hhere,
      fun hne => isComponent_glob? hhere hne hslash hbracket, hlater, (Except.ok.inj hregexes).symm⟩

theorem goesOn_components? {components : List (List Char)} {isFirst afterSlash : Bool}
    {regexes : List Regex} (hclear : HasNoBrackets components) (hlast : components.getLast? ≠ some [])
    (hregexes : Pattern.components? isFirst afterSlash components = .ok regexes) :
    GoesOn (inOrder regexes) := by
  -- only the end of the last component looks at what follows
  induction components generalizing isFirst afterSlash regexes with
  | nil =>
    obtain rfl := Except.ok.inj hregexes
    exact goesOn_inOrder (by simp)
  | cons component rest ih =>
    obtain ⟨hslash, hbracket⟩ := hclear component List.mem_cons_self
    have hrest : rest.getLast? ≠ some [] := by
      cases rest with
      | nil => simp
      | cons next rest => rwa [List.getLast?_cons_cons] at hlast
    have ih := fun {isFirst afterSlash} {regexes} => @ih isFirst afterSlash regexes
      (fun other hother => hclear other (List.mem_cons_of_mem component hother)) hrest
    have hseparator : IgnoresRest Pattern.slash := ignoresRest_one _
    have hanything : IgnoresRest Pattern.anything := ignoresRest_oneOrMore _
    by_cases hdepth : component = Pattern.anyDepth
    · rw [Pattern.components?, if_pos hdepth] at hregexes
      split at hregexes
      · obtain ⟨later, hlater, rfl⟩ := except_map_eq_ok_iff.mp hregexes
        apply goesOn_inOrder_append _ (ih hlater)
        simp [ignoresRest_start, (hanything.seq hseparator).maybe]
      · split at hregexes
        · obtain rfl := Except.ok.inj hregexes
          exact goesOn_inOrder (by simp [hseparator])
        · obtain ⟨later, hlater, rfl⟩ := except_map_eq_ok_iff.mp hregexes
          apply goesOn_inOrder_append _ (ih hlater)
          simp [(hseparator.seq hanything).maybe]
    · obtain ⟨here, later, hhere, hcomponent, hlater, rfl⟩ :=
        exists_of_components?_cons hdepth hslash hbracket hregexes
      have hfront : ∀ regex ∈ (if isFirst then [start] else []) ++
          (if afterSlash then [Pattern.slash] else []), IgnoresRest regex := by
        cases isFirst <;> cases afterSlash <;> simp [ignoresRest_start, hseparator]
      cases rest with
      | nil =>
        obtain rfl := Except.ok.inj hlater
        have hne : component ≠ [] := by
          rintro rfl
          exact hlast rfl
        simp only [List.append_assoc]
        rw [← List.append_assoc]
        exact goesOn_inOrder_append hfront (hcomponent hne).goesOn_last
      | cons next rest =>
        apply goesOn_inOrder_append _ (ih hlater)
        intro regex hregex
        simp only [List.isEmpty_cons, Bool.false_eq_true, if_false, List.append_nil] at hregex
        rcases List.mem_append.mp hregex with hregex | hregex
        · exact hfront regex hregex
        · rwa [List.mem_singleton.mp hregex]

theorem goesOn_expression? {components : List (List Char)} {isDirectory : Bool}
    (hclear : HasNoBrackets components) (hlast : components.getLast? ≠ some [])
    (hregex : Pattern.expression? isDirectory components = .ok regex) : GoesOn regex := by
  unfold Pattern.expression? at hregex
  split at hregex
  · obtain rfl := Except.ok.inj hregex
    cases isDirectory <;> exact (ignoresRest_one _).goesOn
  · split at hregex
    · obtain rfl := Except.ok.inj hregex
      exact (ignoresRest_one _).goesOn
    · split at hregex
      · obtain rfl := Except.ok.inj hregex
        exact (ignoresRest_one _).goesOn
      · obtain ⟨regexes, hregexes, hregex⟩ := except_bind_eq_ok_iff.mp hregex
        split at hregex
        · cases hregex
        · obtain rfl := Except.ok.inj hregex
          exact goesOn_components? hclear hlast hregexes

theorem mem_anchorComponents {components : List (List Char)}
    (hmem : component ∈ Pattern.anchorComponents components) :
    component = Pattern.anyDepth ∨ component ∈ components := by
  unfold Pattern.anchorComponents at hmem
  split at hmem
  · exact .inr (List.mem_cons_of_mem _ hmem)
  · split at hmem
    · exact .inr hmem
    · exact List.mem_cons.mp hmem
  · split at hmem
    · exact .inr hmem
    · exact List.mem_cons.mp hmem
  · exact .inr hmem

theorem mem_openEnd {components : List (List Char)} (hmem : component ∈ Pattern.openEnd components) :
    component = Pattern.anyDepth ∨ component ∈ components := by
  unfold Pattern.openEnd at hmem
  split at hmem
  · rcases List.mem_append.mp hmem with hmem | hmem
    · exact .inr (List.mem_of_mem_dropLast hmem)
    · exact .inl (List.mem_singleton.mp hmem)
  · exact .inr hmem

theorem mem_mergeAnyDepth {components : List (List Char)}
    (hmem : component ∈ Pattern.mergeAnyDepth components) : component ∈ components := by
  induction components with
  | nil => exact hmem
  | cons first rest ih =>
    rw [Pattern.mergeAnyDepth] at hmem
    split at hmem
    · exact List.mem_cons_of_mem first (ih hmem)
    · exact List.mem_cons.mpr ((List.mem_cons.mp hmem).imp_right ih)

theorem getLast?_openEnd (components : List (List Char)) :
    (Pattern.openEnd components).getLast? ≠ some [] := by
  unfold Pattern.openEnd
  split
  · simp [Pattern.anyDepth]
  · assumption

theorem getLast?_mergeAnyDepth (components : List (List Char)) :
    (Pattern.mergeAnyDepth components).getLast? = components.getLast? := by
  induction components with
  | nil => rfl
  | cons first rest ih =>
    rw [Pattern.mergeAnyDepth]
    split
    · rename_i hmerge
      rw [ih]
      cases rest with
      | nil => simp at hmerge
      | cons next rest => rw [List.getLast?_cons_cons]
    · rw [List.getLast?_cons, List.getLast?_cons, ih]

/-- A line without brackets writes a pattern that goes on. -/
theorem goesOn_of_parse? {line : String} {pattern : Pattern} (hbracket : '[' ∉ line.toList)
    (hpattern : Pattern.parse? line = .ok (some pattern)) : GoesOn pattern.regex := by
  obtain ⟨first, rest, htrim, -, hregex⟩ := exists_of_parse? hpattern
  have htext : (if first == '!' then rest else first :: rest) ⊆ line.toList := by
    have hline : first :: rest ⊆ line.toList := htrim ▸ (trim_begins line.toList).subset
    split
    · exact fun c hc => hline (List.mem_cons_of_mem first hc)
    · exact hline
  have hclear : HasNoBrackets (lineComponents first rest) := by
    intro component hcomponent
    have hmem := forall_of_mem_splitAtEach hcomponent
    constructor
    · intro hslash
      exact absurd (hmem '/' hslash).2 (by decide)
    · intro hopen
      exact hbracket (htext (hmem '[' hopen).1)
  refine goesOn_expression? ?_ ?_ hregex
  · intro component hcomponent
    rcases mem_openEnd (mem_mergeAnyDepth hcomponent) with rfl | hcomponent
    · decide
    · rcases mem_anchorComponents hcomponent with rfl | hcomponent
      · decide
      · exact hclear component hcomponent
  · rw [getLast?_mergeAnyDepth]
    exact getLast?_openEnd _

theorem endsInSlash_seenDirectory (names : List String) :
    EndsInSlash none (plainPath (seenDirectory names)) := by
  intro c hc
  obtain ⟨front, hfront⟩ := plainPath_suffix (seenDirectory names)
  have hlast : (seenDirectory names).getLast? = some '/' := by simp [seenDirectory]
  rw [← hfront, List.getLast?_append] at hlast
  rw [lastOr, Option.or_none] at hc
  rw [hc] at hlast
  exact Option.some.inj hlast

/-- Where a directory is left out, so is all that it holds. -/
theorem ignoresFile_of_ignoresDirectory {filter : ScanFilter} {root dir path : Pathname}
    {dirs below : List String}
    (hpatterns : ∀ pattern ∈ filter.patterns, pattern.negated = false ∧ GoesOn pattern.regex)
    (hdirs : dirs ≠ []) (hbelow : below ≠ []) (hdir : LeadsBelow root dirs dir)
    (hpath : LeadsBelow root (dirs ++ below) path) (hignored : filter.ignoresDirectory root dir = true) :
    filter.ignoresFile root path = true := by
  have hplain : ∀ pattern ∈ filter.patterns, pattern.negated = false :=
    fun pattern hpattern => (hpatterns pattern hpattern).1
  rw [ignoresDirectory_iff hdir, ignores_iff hplain, String.toList_ofList] at hignored
  rw [ignoresFile_iff hpath, ignores_iff hplain, String.toList_ofList]
  obtain ⟨pattern, hpattern, hoccurs⟩ := hignored
  have hslash : (seenDirectory dirs).getLast? = some '/' := by simp [seenDirectory]
  have hbegins := plainPath_begins hslash (seenDirectory_begins hdirs hbelow)
  exact ⟨pattern, hpattern, (hpatterns pattern hpattern).2.occursIn_longer
    (endsInSlash_seenDirectory dirs) hbegins hoccurs⟩

end EnvFill.Ignore
