import EnvFill.Proofs.LiteralPatterns
import EnvFill.Proofs.SeenPaths

/-!
# Patterns of directories

A pattern that is a plain name and a slash is matched where the name is a component of a path with
something after it. So the standard patterns leave out what lies in directories of certain names.
-/

namespace EnvFill.Ignore

open Regex Storage Text

variable {name component text : List Char} {dirs : List (List Char)} {names : List String}

/-- A component in which every character means itself, and which is not taken for a mark of the line. -/
structure IsPlain (name : List Char) : Prop where
  ne_nil : name ≠ []
  head_ne : name.head? ≠ some '!' ∧ name.head? ≠ some '#'
  plain : ∀ c ∈ name, c ∉ specials ∧ c ≠ '/'

theorem splitAtEach_of_plain (hname : IsPlain name) (rest : List Char) :
    splitAtEach (· == '/') (name ++ '/' :: rest) = name :: splitAtEach (· == '/') rest := by
  have hends : endEach '/' [name] ++ rest = name ++ '/' :: rest := by simp
  rw [← hends, splitAtEach_endEach_append (by decide)]
  · rfl
  · intro line hline c hc
    rw [List.mem_singleton.mp hline] at hc
    simpa using (hname.plain c hc).2

theorem IsPlain.isLiteral_directory (hname : IsPlain name) : IsLiteral (name ++ ['/']) where
  head_ne := by
    obtain ⟨c, rest, rfl⟩ := List.exists_cons_of_ne_nil hname.ne_nil
    have hslash : c ≠ '/' := (hname.plain c List.mem_cons_self).2
    simpa [hslash] using hname.head_ne
  plain := by
    rw [List.forall_mem_append]
    exact ⟨fun c hc => (hname.plain c hc).1, List.forall_mem_singleton.mpr (by decide)⟩
  last_not_blank := by
    rw [List.getLast?_concat]
    decide

theorem covers_directory_iff (hname : IsPlain name) :
    Covers (name ++ ['/']) text ↔ ∃ lead rest, IsLead lead ∧ text = lead ++ (name ++ '/' :: rest) := by
  have hslash : '/' ∉ name := fun hc => (hname.plain '/' hc).2 rfl
  simp [Covers, hslash]

/-- The pattern of a directory applies to a path if the name stands in it, between slashes. -/
theorem exists_parse?_directory (hname : IsPlain name) :
    ∃ pattern, Pattern.parse? (String.ofList (name ++ ['/'])) = .ok (some pattern) ∧
      pattern.negated = false ∧ ∀ text, pattern.regex.occursIn text = true ↔
        ∃ lead rest, IsLead lead ∧ text = lead ++ (name ++ '/' :: rest) := by
  obtain ⟨pattern, hparse, hkept, hoccurs⟩ :=
    exists_parse?_literal hname.isLiteral_directory (List.forall_mem_nil _)
  rw [List.append_nil] at hparse
  exact ⟨pattern, hparse, hkept, fun text => (hoccurs text).trans (covers_directory_iff hname)⟩

/-! ### Names as components -/

theorem isLead_endEach (hdirs : ∀ dir ∈ dirs, dir ≠ [] ∧ '\n' ∉ dir) : IsLead (endEach '/' dirs) := by
  rcases List.eq_nil_or_concat' dirs with rfl | ⟨above, dir, rfl⟩
  · exact .inl rfl
  · obtain ⟨hne, -⟩ := hdirs dir (by simp)
    refine .inr ⟨endEach '/' above ++ dir, by simp [hne], ?_, by simp⟩
    rw [List.mem_append, endEach, List.mem_flatMap]
    rintro (⟨other, hother, hlf⟩ | hlf)
    · obtain ⟨-, hclear⟩ := hdirs other (List.mem_append_left _ hother)
      simp [hclear] at hlf
    · exact (hdirs dir (by simp)).2 hlf

theorem exists_endEach_of_isLead {lead : List Char} (hlead : IsLead lead) :
    ∃ dirs, lead = endEach '/' dirs ∧ ∀ dir ∈ dirs, ∀ c ∈ dir, (c == '/') = false := by
  rcases hlead with rfl | ⟨front, -, -, rfl⟩
  · exact ⟨[], rfl, by simp⟩
  · obtain ⟨dirs, last, hsplit, hfront⟩ := exists_endEach_append '/' front
    refine ⟨dirs ++ [last], by simp [hfront], ?_⟩
    intro dir hdir c hc
    rw [← hsplit] at hdir
    exact (forall_of_mem_splitAtEach hdir c hc).2

/-- What stands between slashes is a component. -/
theorem exists_lead_iff {last : List Char} (hname : IsPlain name)
    (hdirs : ∀ dir ∈ dirs, dir ≠ [] ∧ '/' ∉ dir ∧ '\n' ∉ dir) (hlast : '/' ∉ last) :
    (∃ lead rest, IsLead lead ∧ endEach '/' dirs ++ last = lead ++ (name ++ '/' :: rest)) ↔
      name ∈ dirs := by
  constructor
  · rintro ⟨lead, rest, hlead, htext⟩
    obtain ⟨above, rfl, habove⟩ := exists_endEach_of_isLead hlead
    have hclear : ∀ dir ∈ dirs ++ [last], '/' ∉ dir :=
      List.forall_mem_append.mpr
        ⟨fun dir hdir => (hdirs dir hdir).2.1, List.forall_mem_singleton.mpr hlast⟩
    have hclean : ∀ dir ∈ dirs ++ [last], ∀ c ∈ dir, (c == '/') = false :=
      fun dir hdir => forall_beq_eq_false (hclear dir hdir)
    -- both texts are split at their slashes, and the parts before the last are compared
    have hsplit := congrArg (splitAtEach (· == '/')) htext
    rw [splitAtEach_endEach_append_last (by decide) hclean, splitAtEach_endEach_append (by decide) habove,
      splitAtEach_of_plain hname] at hsplit
    have hrest := splitAtEach_ne_nil (· == '/') rest
    have hdirs : dirs = above ++ name :: (splitAtEach (· == '/') rest).dropLast := by
      have hfront := congrArg List.dropLast hsplit
      rwa [List.dropLast_concat, List.dropLast_append_cons, List.dropLast_cons_of_ne_nil hrest] at hfront
    rw [hdirs]
    exact List.mem_append_right above List.mem_cons_self
  · intro hmem
    obtain ⟨above, below, rfl⟩ := List.append_of_mem hmem
    refine ⟨endEach '/' above, endEach '/' below ++ last, isLead_endEach ?_, by simp⟩
    intro dir hdir
    have hdir := hdirs dir (List.mem_append_left _ hdir)
    exact ⟨hdir.1, hdir.2.2⟩

structure IsClean (name : String) : Prop where
  ne_nil : name.toList ≠ []
  ne_dot : name.toList ≠ ['.']
  slash : '/' ∉ name.toList
  backslash : '\\' ∉ name.toList
  lf : '\n' ∉ name.toList

instance : DecidablePred IsClean := fun name =>
  decidable_of_iff (name.toList ≠ [] ∧ name.toList ≠ ['.'] ∧ '/' ∉ name.toList ∧ '\\' ∉ name.toList ∧
    '\n' ∉ name.toList)
    ⟨fun ⟨hne, hdot, hslash, hbackslash, hlf⟩ => ⟨hne, hdot, hslash, hbackslash, hlf⟩,
      fun hname => ⟨hname.ne_nil, hname.ne_dot, hname.slash, hname.backslash, hname.lf⟩⟩

theorem plainPath_append_of_isClean {name : String} (hname : IsClean name) (rest : List Char) :
    plainPath (name.toList ++ rest) = name.toList ++ rest := by
  obtain ⟨hne, hdot, hslash, -, -⟩ := hname
  generalize name.toList = first at hne hdot hslash ⊢
  match first with
  | [] => exact absurd rfl hne
  | [c] =>
    apply plainPath_eq_self
    · simpa [eq_comm] using hslash
    · simp only [List.singleton_append, List.cons_prefix_cons]
      rintro ⟨rfl, -⟩
      exact hdot rfl
  | c :: d :: text =>
    simp only [List.mem_cons, not_or] at hslash
    apply plainPath_eq_self
    · simpa [eq_comm] using hslash.1
    · simp only [List.cons_append, List.cons_prefix_cons]
      exact fun hbegins => hslash.2.1 hbegins.2.1

theorem seenText_concat {dirs : List String} {last : String}
    (hnames : ∀ name ∈ dirs ++ [last], IsClean name) :
    seenText (dirs ++ [last]) = endEach '/' (dirs.map String.toList) ++ last.toList := by
  have hsame : ∀ c ∈ endEach '/' (dirs.map String.toList) ++ last.toList,
      (if c = '\\' then '/' else c) = c := by
    intro c hc
    rw [if_neg]
    rintro rfl
    rw [List.mem_append, endEach, List.flatMap_map, List.mem_flatMap] at hc
    rcases hc with ⟨dir, hdir, hc⟩ | hc
    · have hclear := (hnames dir (List.mem_append_left _ hdir)).backslash
      simp [hclear] at hc
    · exact (hnames last (by simp)).backslash hc
  unfold seenText
  rw [toString_current (by simp), toList_joinParts, List.map_append, List.map_singleton,
    intercalate_concat, List.map_congr_left hsame, List.map_id'']
  exact fun _ => rfl

theorem seenDirectory_eq (hne : names ≠ []) (hnames : ∀ name ∈ names, IsClean name) :
    seenDirectory names = endEach '/' (names.map String.toList) := by
  obtain ⟨dirs, last, rfl⟩ := (List.eq_nil_or_concat' names).resolve_left hne
  have hlast : IsClean last := hnames last (by simp)
  obtain ⟨front, c, hconcat⟩ := (List.eq_nil_or_concat' last.toList).resolve_left hlast.ne_nil
  have hc : c ≠ '/' := by
    rintro rfl
    exact hlast.slash (by simp [hconcat])
  have hends : endEach '/' ((dirs ++ [last]).map String.toList) =
      endEach '/' (dirs.map String.toList) ++ last.toList ++ ['/'] := by simp
  rw [seenDirectory, seenText_concat hnames, hends, hconcat, ← List.append_assoc]
  congr 1
  exact dropEndWhile_concat _ (by simpa using hc)

theorem plainPath_endEach_append {last : List Char} (hnames : ∀ name ∈ names, IsClean name)
    (hne : names ≠ []) :
    plainPath (endEach '/' (names.map String.toList) ++ last) =
      endEach '/' (names.map String.toList) ++ last := by
  obtain ⟨first, rest, rfl⟩ := List.exists_cons_of_ne_nil hne
  rw [List.map_cons, endEach_cons, List.append_assoc]
  exact plainPath_append_of_isClean (hnames first List.mem_cons_self) _

/-! ### The standard patterns -/

section Standard

variable {filter : ScanFilter} {root path : Pathname} {line : String} {pattern : Pattern}

theorem isPlain_of_skipped {name : String} (hname : name ∈ skippedDirectories) : IsPlain name.toList := by
  have hhead : ∀ name ∈ skippedDirectories, name.toList ≠ [] ∧
      name.toList.head? ≠ some '!' ∧ name.toList.head? ≠ some '#' := by decide
  have hall : (skippedDirectories.all fun name =>
      name.toList.all fun c => !specials.contains c && c != '/') = true := by decide +kernel
  refine ⟨(hhead name hname).1, (hhead name hname).2, fun c hc => ?_⟩
  have hplain := List.all_eq_true.mp (List.all_eq_true.mp hall name hname) c hc
  simpa using hplain

/-- The standard filter has one pattern for each of the directories that are skipped. -/
theorem mem_patterns_iff (hbuild : ScanFilter.build [] = .ok filter) :
    pattern ∈ filter.patterns ↔ ∃ name ∈ skippedDirectories,
      Pattern.parse? (String.ofList (name.toList ++ ['/'])) = .ok (some pattern) := by
  obtain ⟨patterns, hpatterns, rfl⟩ := except_map_eq_ok_iff.mp hbuild
  have hlines : standardPatterns ++ withoutBlank [] = standardPatterns := List.append_nil _
  have hline : ∀ name : String, name ++ "/" = String.ofList (name.toList ++ ['/']) := by
    intro name
    rw [String.ofList_append, String.ofList_toList]
  rw [hlines] at hpatterns
  simp only [mem_parsePatterns_iff hpatterns, standardPatterns, Sorted.mem_ofList,
    List.mem_map, exists_exists_and_eq_and, hline]

/-- What the standard filter leaves out is what has a skipped directory on the way. -/
theorem ignores_standard_iff {text : List Char} (hbuild : ScanFilter.build [] = .ok filter) :
    ignores filter.patterns (String.ofList text) = true ↔
      ∃ name ∈ skippedDirectories, ∃ lead rest,
        IsLead lead ∧ plainPath text = lead ++ (name.toList ++ '/' :: rest) := by
  have hparse : ∀ name ∈ skippedDirectories, ∀ pattern,
      Pattern.parse? (String.ofList (name.toList ++ ['/'])) = .ok (some pattern) →
        pattern.negated = false ∧ ∀ text, pattern.regex.occursIn text = true ↔
          ∃ lead rest, IsLead lead ∧ text = lead ++ (name.toList ++ '/' :: rest) := by
    intro name hname pattern hpattern
    obtain ⟨directory, hdirectory, hkept, hoccurs⟩ := exists_parse?_directory (isPlain_of_skipped hname)
    obtain rfl : directory = pattern := Option.some.inj (Except.ok.inj (hdirectory.symm.trans hpattern))
    exact ⟨hkept, hoccurs⟩
  have hkept : ∀ pattern ∈ filter.patterns, pattern.negated = false := by
    intro pattern hpattern
    obtain ⟨name, hname, hpattern⟩ := (mem_patterns_iff hbuild).mp hpattern
    exact (hparse name hname pattern hpattern).1
  rw [ignores_iff hkept, String.toList_ofList]
  constructor
  · rintro ⟨pattern, hpattern, hoccurs⟩
    obtain ⟨name, hname, hpattern⟩ := (mem_patterns_iff hbuild).mp hpattern
    exact ⟨name, hname, ((hparse name hname pattern hpattern).2 _).mp hoccurs⟩
  · rintro ⟨name, hname, hlead⟩
    obtain ⟨pattern, hpattern, -, hoccurs⟩ := exists_parse?_directory (isPlain_of_skipped hname)
    exact ⟨pattern, (mem_patterns_iff hbuild).mpr ⟨name, hname, hpattern⟩, (hoccurs _).mpr hlead⟩

theorem ignores_endEach_iff {dirs : List String} {last : List Char}
    (hbuild : ScanFilter.build [] = .ok filter) (hdirs : ∀ name ∈ dirs, IsClean name) (hlast : '/' ∉ last)
    (hplain : plainPath (endEach '/' (dirs.map String.toList) ++ last) =
      endEach '/' (dirs.map String.toList) ++ last) :
    ignores filter.patterns (String.ofList (endEach '/' (dirs.map String.toList) ++ last)) = true ↔
      ∃ name ∈ dirs, name ∈ skippedDirectories := by
  have hlines : ∀ dir ∈ dirs.map String.toList, dir ≠ [] ∧ '/' ∉ dir ∧ '\n' ∉ dir := by
    rw [List.forall_mem_map]
    exact fun name hname => ⟨(hdirs name hname).ne_nil, (hdirs name hname).slash, (hdirs name hname).lf⟩
  rw [ignores_standard_iff hbuild, hplain]
  constructor
  · rintro ⟨name, hname, hlead⟩
    rw [exists_lead_iff (isPlain_of_skipped hname) hlines hlast, List.mem_map] at hlead
    obtain ⟨other, hother, heq⟩ := hlead
    obtain rfl := String.toList_injective heq
    exact ⟨other, hother, hname⟩
  · rintro ⟨name, hname, hskipped⟩
    refine ⟨name, hskipped, ?_⟩
    rw [exists_lead_iff (isPlain_of_skipped hskipped) hlines hlast]
    exact List.mem_map_of_mem hname

/-- A directory is left out with the standard patterns if it or one above it is skipped. -/
theorem ignoresDirectory_standard_iff (hbuild : ScanFilter.build [] = .ok filter) (hne : names ≠ [])
    (hnames : ∀ name ∈ names, IsClean name) (hpath : LeadsBelow root names path) :
    filter.ignoresDirectory root path = true ↔ ∃ name ∈ names, name ∈ skippedDirectories := by
  rw [ignoresDirectory_iff hpath, seenDirectory_eq hne hnames]
  have hignores := ignores_endEach_iff hbuild hnames List.not_mem_nil
    (plainPath_endEach_append hnames hne)
  rwa [List.append_nil] at hignores

/-- A file is left out with the standard patterns if a directory above it is skipped. -/
theorem ignoresFile_standard_iff (hbuild : ScanFilter.build [] = .ok filter) (hne : names ≠ [])
    (hnames : ∀ name ∈ names, IsClean name) (hpath : LeadsBelow root names path) :
    filter.ignoresFile root path = true ↔ ∃ name ∈ names.dropLast, name ∈ skippedDirectories := by
  obtain ⟨dirs, last, rfl⟩ := (List.eq_nil_or_concat' names).resolve_left hne
  have hlast : IsClean last := hnames last (by simp)
  have hdirs : ∀ name ∈ dirs, IsClean name := fun name hname => hnames name (List.mem_append_left _ hname)
  rw [ignoresFile_iff hpath, seenText_concat hnames, List.dropLast_concat]
  apply ignores_endEach_iff hbuild hdirs hlast.slash
  cases dirs with
  | nil =>
    have hplain := plainPath_append_of_isClean hlast []
    rwa [List.append_nil] at hplain
  | cons first rest => exact plainPath_endEach_append hdirs (List.cons_ne_nil first rest)

end Standard

end EnvFill.Ignore
