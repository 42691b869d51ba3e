import EnvFill.Proofs.CodeScans
import EnvFill.Proofs.PatternLines
import EnvFill.Proofs.ScanRoots

/-!
# Narrowed scans

A line of ignore patterns that takes no paths out again can only have more paths left out, wherever it is
inserted: the last pattern that applies to a path is the same as before, or it is the one inserted. So a
scan with more such lines, or through fewer levels, finds nothing that the other scan does not find.
-/

namespace EnvFill.Ignore

open Text

inductive Inserts {α : Type} (P : α → Prop) : List α → List α → Prop where
  | nil : Inserts P [] []
  | keep {items more : List α} (item : α) (hrest : Inserts P items more) :
      Inserts P (item :: items) (item :: more)
  | insert {items more : List α} {item : α} (hitem : P item) (hrest : Inserts P items more) :
      Inserts P items (item :: more)

section Inserts

variable {α : Type} {P : α → Prop} {items more front back : List α}

theorem Inserts.refl (items : List α) : Inserts P items items := by
  induction items with
  | nil => exact .nil
  | cons item items ih => exact .keep item ih

theorem Inserts.append_left (hinserts : Inserts P items more) (front : List α) :
    Inserts P (front ++ items) (front ++ more) := by
  induction front with
  | nil => exact hinserts
  | cons item front ih => exact .keep item ih

theorem Inserts.append_right (hinserts : Inserts P items more) (back : List α) :
    Inserts P (items ++ back) (more ++ back) := by
  induction hinserts with
  | nil => exact .refl back
  | keep item _ ih => exact .keep item ih
  | insert hitem _ ih => exact .insert hitem ih

theorem Inserts.filter (hinserts : Inserts P items more) (p : α → Bool) :
    Inserts P (items.filter p) (more.filter p) := by
  induction hinserts with
  | nil => exact .nil
  | keep item _ ih =>
    rw [List.filter_cons, List.filter_cons]
    split
    · exact .keep item ih
    · exact ih
  | insert hitem _ ih =>
    rw [List.filter_cons]
    split
    · exact .insert hitem ih
    · exact ih

end Inserts

/-! ### Patterns and filters -/

def IsNegation (line : String) : Prop := line.toList.head? = some '!'

variable {lines more : List String} {patterns others : List Pattern} {path : String}

/-- The pattern that decides on a path: the last one that applies to it. -/
def decider? (patterns : List Pattern) (path : String) : Option Pattern :=
  patterns.reverse.find? fun pattern => pattern.regex.occursIn (plainPath path.toList)

theorem decider?_cons (pattern : Pattern) (patterns : List Pattern) (path : String) :
    decider? (pattern :: patterns) path =
      (decider? patterns path).or
        (if pattern.regex.occursIn (plainPath path.toList) then some pattern else none) := by
  unfold decider?
  rw [List.reverse_cons, List.find?_append, List.find?_singleton]

theorem ignores_eq (patterns : List Pattern) (path : String) :
    ignores patterns path = (decider? patterns path).any fun pattern => !pattern.negated := by
  unfold ignores decider?
  split <;> rename_i hfind <;> rw [hfind] <;> rfl

/-- Where another pattern decides than before, it is one that was inserted. -/
theorem decider?_of_inserts (hinserts : Inserts (·.negated = false) patterns others) (path : String) :
    decider? others path = decider? patterns path ∨
      ∃ pattern, decider? others path = some pattern ∧ pattern.negated = false := by
  -- The first pattern decides only where none of the later ones does.
  induction hinserts with
  | nil => exact .inl rfl
  | keep pattern _ ih =>
    rw [decider?_cons, decider?_cons]
    rcases ih with hsame | ⟨other, hother, hplain⟩
    · exact .inl (by rw [hsame])
    · exact .inr ⟨other, by rw [hother, Option.some_or], hplain⟩
  | @insert patterns others pattern hpattern _ ih =>
    rw [decider?_cons]
    cases hdecider : decider? others path with
    | some other => rwa [hdecider] at ih
    | none =>
      have hnone : decider? patterns path = none := by
        rcases ih with hsame | ⟨other, hother, -⟩
        · exact hsame.symm.trans hdecider
        · exact absurd (hdecider.symm.trans hother) (Option.some_ne_none other).symm
      rw [hnone, Option.none_or]
      split
      · exact .inr ⟨pattern, rfl, hpattern⟩
      · exact .inl rfl

/-- **Inserted patterns leave out more.** -/
theorem ignores_of_inserts (hinserts : Inserts (·.negated = false) patterns others)
    (hignored : ignores patterns path = true) : ignores others path = true := by
  rw [ignores_eq] at hignored ⊢
  rcases decider?_of_inserts hinserts path with hsame | ⟨pattern, hdecider, hplain⟩
  · rwa [hsame]
  · rw [hdecider, Option.any_some, hplain, Bool.not_false]

/-- Lines inserted that are no negations make patterns inserted that take no paths out again. -/
theorem exists_parsePatterns_of_inserts (hinserts : Inserts (¬IsNegation ·) lines more)
    (hmore : parsePatterns more = .ok others) :
    ∃ patterns, parsePatterns lines = .ok patterns ∧ Inserts (·.negated = false) patterns others := by
  induction hinserts generalizing others with
  | nil =>
    obtain rfl := Except.ok.inj hmore
    exact ⟨[], rfl, .nil⟩
  | keep line _ ih =>
    obtain ⟨first, rest, hfirst, hrest, rfl⟩ := parsePatterns_cons_eq_ok_iff.mp hmore
    obtain ⟨patterns, hpatterns, hinserts⟩ := ih hrest
    exact ⟨first.toList ++ patterns,
      parsePatterns_cons_eq_ok_iff.mpr ⟨first, patterns, hfirst, hpatterns, rfl⟩,
      hinserts.append_left first.toList⟩
  | insert hline _ ih =>
    obtain ⟨first, rest, hfirst, hrest, rfl⟩ := parsePatterns_cons_eq_ok_iff.mp hmore
    obtain ⟨patterns, hpatterns, hinserts⟩ := ih hrest
    refine ⟨patterns, hpatterns, ?_⟩
    cases first with
    | none => exact hinserts
    | some pattern => exact .insert (negated_of_parse? hline hfirst) hinserts

structure ScanFilter.LeavesOutMore (filter other : ScanFilter) : Prop where
  files : ∀ root path, filter.ignoresFile root path = true → other.ignoresFile root path = true
  directories : ∀ root path,
    filter.ignoresDirectory root path = true → other.ignoresDirectory root path = true

theorem ScanFilter.leavesOutMore_of_ignores {filter other : ScanFilter}
    (hignores : ∀ path, ignores filter.patterns path = true → ignores other.patterns path = true) :
    filter.LeavesOutMore other where
  files root path hignored := by
    obtain ⟨visible, hvisible, hseen⟩ := (Option.any_eq_true _ _).mp hignored
    exact (Option.any_eq_true _ _).mpr ⟨visible, hvisible, hignores _ hseen⟩
  directories root path hignored := by
    obtain ⟨visible, hvisible, hseen⟩ := (Option.any_eq_true _ _).mp hignored
    exact (Option.any_eq_true _ _).mpr ⟨visible, hvisible, hignores _ hseen⟩

theorem ScanFilter.exists_build_of_inserts {own : List String} {other : ScanFilter}
    (hinserts : Inserts (¬IsNegation ·) lines more) (hother : build (more ++ own) = .ok other) :
    ∃ filter, build (lines ++ own) = .ok filter ∧ filter.LeavesOutMore other := by
  obtain ⟨others, hothers, rfl⟩ := except_map_eq_ok_iff.mp hother
  have hall : Inserts (¬IsNegation ·) (standardPatterns ++ withoutBlank (lines ++ own))
      (standardPatterns ++ withoutBlank (more ++ own)) :=
    ((hinserts.append_right own).filter _).append_left standardPatterns
  obtain ⟨patterns, hpatterns, hinserts⟩ := exists_parsePatterns_of_inserts hall hothers
  exact ⟨⟨patterns⟩, except_map_eq_ok_iff.mpr ⟨patterns, hpatterns, rfl⟩,
    leavesOutMore_of_ignores fun path => ignores_of_inserts hinserts⟩

end EnvFill.Ignore

namespace EnvFill.Project

open Storage Ignore Fill

variable {disk : Disk} {root dirs : Location} {node : Node} {filter other : ScanFilter}
  {fewer deeper : Int} {file : String} {bytes : List UInt8} {path : Pathname}
  {lines more : List String} {narrow : CodeScan}

theorem IsScanned.widen (hfilter : filter.LeavesOutMore other) (hdepth : fewer ≤ deeper)
    (hscanned : IsScanned disk root node other fewer dirs file bytes) :
    IsScanned disk root node filter deeper dirs file bytes where
  held := hscanned.held
  short := hscanned.short
  shallow := hscanned.shallow.trans (max_le_max_right 0 hdepth)
  entered front hne hfront :=
    Bool.eq_false_of_not_eq_true fun hignored =>
      Bool.eq_false_iff.mp (hscanned.entered front hne hfront) (hfilter.directories _ _ hignored)
  kept := Bool.eq_false_of_not_eq_true fun hignored =>
    Bool.eq_false_iff.mp hscanned.kept (hfilter.files _ _ hignored)
  code := hscanned.code
  text := hscanned.text

/-- **A narrowed scan finds nothing else.** Where a scan has more lines of patterns, none of them a
negation, and goes through no more levels, all that it finds is found without them. -/
theorem files_subset_of_narrowed (hinserts : Inserts (¬IsNegation ·) lines more)
    (hdepth : fewer ≤ deeper) (hscan : scanCode disk path more fewer = .ok narrow) :
    ∃ wide, scanCode disk path lines deeper = .ok wide ∧
      ∀ name, narrow.found.files name ⊆ wide.found.files name := by
  obtain ⟨root, node, own, other, hroot, hown, hother, rfl⟩ := scanCode_returns_iff.mp hscan
  obtain ⟨filter, hfilter, hmore⟩ := ScanFilter.exists_build_of_inserts hinserts hother
  refine ⟨scanCodeIn disk root node filter deeper,
    scanCode_returns_iff.mpr ⟨root, node, own, filter, hroot, hown, hfilter, rfl⟩, fun name text => ?_⟩
  rw [mem_files_scanCodeIn, mem_files_scanCodeIn]
  rintro ⟨dirs, file, bytes, hscanned, htext, hname⟩
  exact ⟨dirs, file, bytes, hscanned.widen hmore hdepth, htext, hname⟩

/-- A pattern inserted before a negation leaves the file there that the negation takes out again. -/
theorem files_subset_of_linkedDisk :
    Inserts (¬IsNegation ·) ["!main.js"] ["*.js", "!main.js"] ∧
      ∃ narrow, scanCode linkedDisk (.ofRoot ["app"]) ["*.js", "!main.js"] 0 = .ok narrow ∧
        "main.js" ∈ narrow.found.files "API_KEY" ∧
          ∃ wide, scanCode linkedDisk (.ofRoot ["app"]) ["!main.js"] 1 = .ok wide ∧
            "main.js" ∈ wide.found.files "API_KEY" := by
  have hinserts : Inserts (¬IsNegation ·) ["!main.js"] ["*.js", "!main.js"] :=
    .insert (by unfold IsNegation; decide) (.refl ["!main.js"])
  have hroot : scanRoot linkedDisk (.ofRoot ["app"]) = .ok (["app"], linkedProject) := by cbv
  have hvalid : ∀ line ∈ ["*.js", "!main.js"], ∃ pattern, Pattern.parse? line = .ok pattern := by
    have hall : ∀ line ∈ ["*.js", "!main.js"], (Pattern.parse? line).isOk = true := by decide +kernel
    exact fun line hline => exists_parse?_of_isOk (hall line hline)
  obtain ⟨filter, hfilter, hpatterns⟩ := ScanFilter.exists_build false hvalid
  have hpatterns : filter = ⟨((parsePatterns (standardPatterns ++
      withoutBlank ["*.js", "!main.js"] ++ [])).toOption).getD []⟩ := by
    have hsome : parsePatterns (standardPatterns ++ withoutBlank ["*.js", "!main.js"] ++ []) =
        .ok filter.patterns := hpatterns
    rw [hsome]
    rfl
  have hscan : scanCode linkedDisk (.ofRoot ["app"]) ["*.js", "!main.js"] 0 =
      .ok (scanCodeIn linkedDisk ["app"] linkedProject filter 0) :=
    scanCode_returns_iff.mpr ⟨_, _, false, filter, hroot, isOwnProject_linkedDisk, hfilter, rfl⟩
  have hfound : "main.js" ∈ (scanCodeIn linkedDisk ["app"] linkedProject filter 0).found.files "API_KEY" := by
    refine mem_files_scanCodeIn.mpr ⟨[], "main.js", _, ?_, by decide, mem_candidates_of_member⟩
    refine ⟨⟨⟨_, .into List.mem_cons_self (.here _), .file⟩, by decide, ?_, ?_, by decide, by decide⟩,
      by decide⟩
    · exact fun front hne hfront => absurd (List.prefix_nil.mp hfront) hne
    · rw [hpatterns]
      decide +kernel
  obtain ⟨wide, hwide, hsubset⟩ := files_subset_of_narrowed hinserts (by decide : (0 : Int) ≤ 1) hscan
  exact ⟨hinserts, _, hscan, hfound, wide, hwide, hsubset "API_KEY" hfound⟩

end EnvFill.Project
