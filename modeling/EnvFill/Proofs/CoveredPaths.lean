import EnvFill.Proofs.DirectoryPatterns

/-!
# Paths that a literal line covers

For paths of ordinary names, a literal line covers those whose components begin with the components of the
line. If it has only one, this may stand behind others.
-/

namespace EnvFill.Ignore

open Storage Text

variable {names parts : List (List Char)}

theorem isPrefix_of_endEach (hparts : ∀ part ∈ parts, '/' ∉ part) (hnames : ∀ name ∈ names, '/' ∉ name)
    (hbegin : endEach '/' parts <+: endEach '/' names) : parts <+: names := by
  have hclean : ∀ (lines : List (List Char)), (∀ line ∈ lines, '/' ∉ line) →
      ∀ line ∈ lines, ∀ c ∈ line, (c == '/') = false :=
    fun lines hlines line hline => forall_beq_eq_false (hlines line hline)
  obtain ⟨rest, hrest⟩ := hbegin
  -- both texts are split at their slashes
  have hsplit := congrArg (splitAtEach (· == '/')) hrest
  rw [← List.append_nil (endEach '/' names), splitAtEach_endEach_append (by decide) (hclean parts hparts),
    splitAtEach_endEach_append (by decide) (hclean names hnames)] at hsplit
  have hfront := congrArg List.dropLast hsplit
  rw [List.dropLast_append_of_ne_nil (splitAtEach_ne_nil _ _),
    List.dropLast_append_of_ne_nil (splitAtEach_ne_nil _ _)] at hfront
  exact ⟨_, hfront.trans (List.append_nil names)⟩

theorem intercalate_append (front : List (List Char)) {back : List (List Char)} (hback : back ≠ []) :
    ['/'].intercalate (front ++ back) = endEach '/' front ++ ['/'].intercalate back := by
  obtain ⟨back, last, rfl⟩ := (List.eq_nil_or_concat' back).resolve_left hback
  rw [← List.append_assoc, intercalate_concat, intercalate_concat, endEach_append, List.append_assoc]

def IsPart (part : List Char) : Prop := part ≠ [] ∧ '/' ∉ part ∧ '\n' ∉ part

theorem getLast?_intercalate (hne : parts ≠ []) (hparts : ∀ part ∈ parts, IsPart part) :
    (['/'].intercalate parts).getLast? ≠ some '/' := by
  obtain ⟨front, last, rfl⟩ := (List.eq_nil_or_concat' parts).resolve_left hne
  obtain ⟨hlast, hslash, -⟩ := hparts last (by simp)
  rw [intercalate_concat, List.getLast?_append_of_ne_nil _ hlast]
  exact fun hend => hslash (List.mem_of_getLast? hend)

theorem slash_mem_dropLast_intercalate_iff (hne : parts ≠ []) (hparts : ∀ part ∈ parts, IsPart part) :
    '/' ∈ (['/'].intercalate parts).dropLast ↔ 1 < parts.length := by
  obtain ⟨first, more, rfl⟩ := List.exists_cons_of_ne_nil hne
  obtain ⟨hfirst, hmore⟩ := List.forall_mem_cons.mp hparts
  cases more with
  | nil =>
    have hslash : '/' ∉ first.dropLast := fun hmem => hfirst.2.1 (List.mem_of_mem_dropLast hmem)
    simp [hslash]
  | cons next more =>
    have hjoined : ['/'].intercalate (next :: more) ≠ [] := by
      have hnext := (hmore next List.mem_cons_self).1
      cases more <;> simp [hnext]
    rw [List.intercalate_cons_cons, List.append_assoc,
      List.dropLast_append_of_ne_nil (by simp), List.singleton_append, List.dropLast_cons_of_ne_nil hjoined]
    simp

theorem lf_not_mem_intercalate (hparts : ∀ part ∈ parts, IsPart part) :
    '\n' ∉ ['/'].intercalate parts := by
  induction parts with
  | nil => simp
  | cons part parts ih =>
    obtain ⟨hpart, hparts⟩ := List.forall_mem_cons.mp hparts
    cases parts with
    | nil => simpa using hpart.2.2
    | cons next parts =>
      rw [List.intercalate_cons_cons, List.mem_append, List.mem_append, not_or, not_or]
      exact ⟨⟨hpart.2.2, by decide⟩, ih hparts⟩

theorem exists_isPrefix_of_covers (hparts : ∀ part ∈ parts, IsPart part)
    (hnames : ∀ name ∈ names, IsPart name) (hne : parts ≠ []) (hbelow : names ≠ [])
    (hcovers : Covers (['/'].intercalate parts) (['/'].intercalate names)) :
    ∃ above, (1 < parts.length → above = []) ∧ above ++ parts <+: names := by
  obtain ⟨lead, rest, hlead, honly, htext, hends⟩ := hcovers
  obtain ⟨above, rfl, habove⟩ := exists_endEach_of_isLead hlead
  refine ⟨above, fun hmany => ?_, ?_⟩
  · have hnil := honly ((slash_mem_dropLast_intercalate_iff hne hparts).mpr hmany)
    cases above with
    | nil => rfl
    | cons => simp at hnil
  apply isPrefix_of_endEach
  · refine List.forall_mem_append.mpr ⟨fun dir hdir hmem => ?_, fun part hpart => (hparts part hpart).2.1⟩
    simpa using habove dir hdir '/' hmem
  · exact fun name hname => (hnames name hname).2.1
  · rw [endEach_eq_intercalate '/' hbelow, htext, endEach_append, endEach_eq_intercalate '/' hne]
    rcases hends.resolve_left (getLast?_intercalate hne hparts) with _ | _ | below
    · exact ⟨[], by simp⟩
    · exact absurd (by simp [htext]) (lf_not_mem_intercalate hnames)
    · exact ⟨below ++ ['/'], by simp⟩

theorem covers_of_isPrefix {above : List (List Char)} (hparts : ∀ part ∈ parts, IsPart part)
    (hnames : ∀ name ∈ names, IsPart name) (hne : parts ≠ []) (honly : 1 < parts.length → above = [])
    (hbegins : above ++ parts <+: names) :
    Covers (['/'].intercalate parts) (['/'].intercalate names) := by
  obtain ⟨below, rfl⟩ := hbegins
  have hlead : IsLead (endEach '/' above) := by
    apply isLead_endEach
    intro dir hdir
    have hdir := hnames dir (by simp [hdir])
    exact ⟨hdir.1, hdir.2.2⟩
  have hslash : '/' ∈ (['/'].intercalate parts).dropLast → endEach '/' above = [] := by
    intro hmem
    rw [honly ((slash_mem_dropLast_intercalate_iff hne hparts).mp hmem), endEach_nil]
  have hfront := intercalate_append above hne
  by_cases hbelow : below = []
  · refine ⟨endEach '/' above, [], hlead, hslash, ?_, .inr .nil⟩
    rw [hbelow, List.append_nil, List.append_nil, hfront]
  · refine ⟨endEach '/' above, '/' :: ['/'].intercalate below, hlead, hslash, ?_, .inr (.slash _)⟩
    rw [intercalate_append _ hbelow, endEach_append, endEach_eq_intercalate '/' hne]
    simp

/-- **Plain paths.** The components of the line begin those of the path; a single one may stand behind
others. -/
theorem covers_intercalate_iff (hparts : ∀ part ∈ parts, IsPart part) (hnames : ∀ name ∈ names, IsPart name)
    (hne : parts ≠ []) (hbelow : names ≠ []) :
    Covers (['/'].intercalate parts) (['/'].intercalate names) ↔
      ∃ above, (1 < parts.length → above = []) ∧ above ++ parts <+: names := by
  constructor
  · exact exists_isPrefix_of_covers hparts hnames hne hbelow
  · rintro ⟨above, honly, hbegins⟩
    exact covers_of_isPrefix hparts hnames hne honly hbegins

theorem IsClean.isPart {name : String} (hname : IsClean name) : IsPart name.toList :=
  ⟨hname.ne_nil, hname.slash, hname.lf⟩

theorem plainPath_seenText {names : List String} (hnames : ∀ name ∈ names, IsClean name) (hne : names ≠ []) :
    plainPath (seenText names) = ['/'].intercalate (names.map String.toList) := by
  obtain ⟨dirs, last, rfl⟩ := (List.eq_nil_or_concat' names).resolve_left hne
  rw [seenText_concat hnames, List.map_append, List.map_singleton, intercalate_concat]
  cases dirs with
  | nil =>
    have hplain := plainPath_append_of_isClean (hnames last (by simp)) []
    simpa using hplain
  | cons first rest =>
    exact plainPath_endEach_append (fun name hname => hnames name (List.mem_append_left _ hname))
      (List.cons_ne_nil first rest)

/-- **A line for a file in a folder** covers the file if it is a single name, or if the path to it from
above the folder begins with the line too. -/
theorem covers_seenText_append_iff {dirs parts : List String} (hdirs : ∀ dir ∈ dirs, IsClean dir)
    (hparts : ∀ part ∈ parts, IsClean part) (hne : parts ≠ []) :
    Covers (['/'].intercalate (parts.map String.toList)) (plainPath (seenText (dirs ++ parts))) ↔
      parts.length = 1 ∨ parts <+: dirs ++ parts := by
  have hnames : ∀ name ∈ dirs ++ parts, IsClean name := List.forall_mem_append.mpr ⟨hdirs, hparts⟩
  have hpart : ∀ names : List String, (∀ name ∈ names, IsClean name) →
      ∀ name ∈ names.map String.toList, IsPart name := by
    intro names hnames
    rw [List.forall_mem_map]
    exact fun name hname => (hnames name hname).isPart
  have hbegin : ∀ front back : List String,
      front.map String.toList <+: back.map String.toList ↔ front <+: back :=
    fun front back => List.prefix_map_iff_of_injective fun _ _ heq => String.toList_injective heq
  rw [plainPath_seenText hnames (by simp [hne]), covers_intercalate_iff (hpart parts hparts)
    (hpart _ hnames) (by simpa using hne) (by simp [hne]), List.length_map]
  constructor
  · rintro ⟨above, honly, hbegins⟩
    by_cases hmany : 1 < parts.length
    · rw [honly hmany, List.nil_append, hbegin] at hbegins
      exact .inr hbegins
    · have hlength := List.length_pos_iff.mpr hne
      exact .inl (by omega)
  · rintro (hone | hbegins)
    · refine ⟨dirs.map String.toList, fun hmany => by omega, ?_⟩
      rw [List.map_append]
    · exact ⟨[], fun _ => rfl, (hbegin _ _).mpr hbegins⟩

end EnvFill.Ignore
