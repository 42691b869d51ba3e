import EnvFill.Proofs.ReadBack

/-!
# Edits one after another

Two edits make the file that one edit with the merged settings makes. The exception is a file with
nothing but blank lines that gets its first settings: only a second edit puts the separator there.
-/

namespace EnvFill.EnvFile

open Text

variable {entries first later : Entries} {content : Option (List UInt8)}
  {lines : List (List UInt8)}

theorem keptLines_eq_nil_iff : keptLines lines = [] ↔ ∀ line ∈ lines, isBlankLine line = true :=
  dropEndWhile_eq_nil_iff

theorem isBlankLine_of_isEmpty {line : List UInt8} (hline : line.isEmpty = true) :
    isBlankLine line = true := by
  rw [List.isEmpty_iff.mp hline]
  simp [isBlankLine, isAllBlank, Utf8.decode]

theorem keptLines_trimEmpty (lines : List (List UInt8)) :
    keptLines (trimEmpty lines) = keptLines lines := by
  obtain ⟨tail, hlines, htail⟩ := exists_append_dropEndWhile List.isEmpty lines
  conv_rhs => rw [hlines]
  exact (dropEndWhile_append_of_forall (trimEmpty lines)
    fun line hline => isBlankLine_of_isEmpty (htail line hline)).symm

/-! ### What the first edit leaves to the second -/

theorem keyOf?_nil : keyOf? [] = none := keyOf?_of_equals_not_mem List.not_mem_nil

theorem glyphs_mem_editedLines_iff (hfirst : HasWritableKeys first) {key : String} :
    glyphs key ∈ (editedLines first lines).filterMap keyOf? ↔
      glyphs key ∈ lines.filterMap keyOf? ∨ key ∈ first.keys := by
  have hupdate : keyOf? ∘ updateLine first = keyOf? := funext fun _ => keyOf?_updateLine hfirst
  have hnew : (settingLines (absentFrom lines first)).filterMap keyOf? =
      (absentFrom lines first).map fun pair => glyphs pair.1 := by
    rw [settingLines, List.filterMap_map, ← List.filterMap_eq_map]
    exact List.filterMap_congr fun pair hpair =>
      keyOf?_settingLine (hfirst.of_mem (mem_absentFrom.mp hpair).1) pair.2
  rw [filterMap_editedLines hfirst (fun _ _ => keyOf?_of_isBlankLine)
    (fun _ => keyOf?_of_equals_not_mem), hupdate, hnew, List.mem_append]
  constructor
  · rintro (hold | hnew)
    · exact .inl hold
    · obtain ⟨pair, hpair, hsame⟩ := List.mem_map.mp hnew
      rw [← glyphs_injective hsame]
      exact .inr (List.mem_map_of_mem (mem_absentFrom.mp hpair).1)
  · intro hkey
    by_cases hold : glyphs key ∈ lines.filterMap keyOf?
    · exact .inl hold
    · obtain ⟨value, hpair⟩ := OrderedMap.exists_mem_of_mem_keys (hkey.resolve_left hold)
      exact .inr (List.mem_map.mpr ⟨_, mem_absentFrom.mpr ⟨hpair, hold⟩, rfl⟩)

/-- The settings that a merge adds: those of the first map with their last values, and then those
that only the second has. -/
theorem absentFrom_merge (hfirst : HasWritableKeys first) (later : Entries)
    (lines : List (List UInt8)) :
    absentFrom lines (first.merge later) =
      ((absentFrom lines first).map fun pair => (pair.1, (later.get? pair.1).getD pair.2)) ++
        absentFrom (editedLines first lines) later := by
  unfold absentFrom
  rw [OrderedMap.toList_merge, List.filter_append, List.filter_map, List.filter_filter]
  congr 1
  refine List.filter_congr fun pair _ => ?_
  have hmem : glyphs pair.1 ∈ (editedLines first lines).filterMap keyOf? ↔ _ :=
    glyphs_mem_editedLines_iff hfirst
  rw [Bool.eq_iff_iff, Bool.and_eq_true, decide_eq_true_iff, Bool.not_eq_true', Bool.not_eq_true',
    List.contains_eq_mem, List.contains_eq_mem, decide_eq_false_iff_not, decide_eq_false_iff_not,
    hmem, not_or]

theorem updateLine_settingLine {pair : String × String} (hkey : IsWritableKey pair.1)
    (later : Entries) :
    updateLine later (settingLine pair.1 pair.2) =
      settingLine pair.1 ((later.get? pair.1).getD pair.2) := by
  have hline := keyOf?_settingLine hkey pair.2
  rw [updateLine, settingFor?_of_key hline]
  cases later.get? pair.1 <;> rfl

theorem map_updateLine_settingLines {pairs : List (String × String)}
    (hpairs : ∀ pair ∈ pairs, IsWritableKey pair.1) (later : Entries) :
    (settingLines pairs).map (updateLine later) =
      settingLines (pairs.map fun pair => (pair.1, (later.get? pair.1).getD pair.2)) := by
  rw [settingLines, settingLines, List.map_map, List.map_map]
  exact List.map_congr_left fun pair hpair => updateLine_settingLine (hpairs pair hpair) later

theorem settingLines_append (front back : List (String × String)) :
    settingLines (front ++ back) = settingLines front ++ settingLines back := List.map_append

theorem keyOf?_settingLine_ne_none {key : String} (hkey : IsWritableKey key) (value : String) :
    keyOf? (settingLine key value) ≠ none := by
  rw [keyOf?_settingLine hkey]
  exact Option.some_ne_none _

theorem isBlankLine_settingLine {key : String} (hkey : IsWritableKey key) (value : String) :
    isBlankLine (settingLine key value) = false :=
  Bool.eq_false_iff.mpr fun hblank =>
    keyOf?_settingLine_ne_none hkey value (keyOf?_of_isBlankLine hblank)

theorem isSeparator_settingLine {key : String} (hkey : IsWritableKey key) (value : String) :
    isSeparator (settingLine key value) = false :=
  Bool.eq_false_iff.mpr fun hseparator =>
    keyOf?_settingLine_ne_none hkey value (keyOf?_of_isSeparator hseparator)

/-- Lines that end in settings are all kept. -/
theorem keptLines_append_settingLines {pairs : List (String × String)} (hpairs : pairs ≠ [])
    (hkeys : ∀ pair ∈ pairs, IsWritableKey pair.1) (front : List (List UInt8)) :
    keptLines (front ++ settingLines pairs) = front ++ settingLines pairs := by
  have hlast := hkeys _ (List.getLast_mem hpairs)
  have hline := isBlankLine_settingLine hlast (pairs.getLast hpairs).2
  rw [← List.dropLast_append_getLast hpairs, settingLines_append, ← List.append_assoc]
  exact dropEndWhile_concat _ (by simp [hline])

theorem isSeparator_separator : isSeparator (Utf8.encodeText separator.toList) = true := by
  rw [isSeparator, Utf8.decode_encodeText]
  decide

theorem any_isSeparator_separatorLines : separatorLines.any isSeparator = true := by
  simp [separatorLines, isSeparator_separator]

/-- Below lines that stand under the separator, or that have it among them, it is not put again. -/
theorem dividerBelow_divided {kept : List (List UInt8)} (hkept : kept ≠ [])
    (added : List (List UInt8)) : dividerBelow (kept ++ dividerBelow kept ++ added) = [] := by
  have hseparator : (kept ++ dividerBelow kept ++ added).any isSeparator = true := by
    by_cases hany : kept.any isSeparator = true
    · simp [hany]
    · have hdivider : dividerBelow kept = separatorLines := by
        rw [dividerBelow, if_neg]
        simpa [hkept] using hany
      rw [List.any_append, List.any_append, hdivider, any_isSeparator_separatorLines, Bool.or_true,
        Bool.true_or]
  rw [dividerBelow, hseparator, Bool.or_true]
  rfl

theorem map_updateLine_dividerBelow (later : Entries) (kept : List (List UInt8)) :
    (dividerBelow kept).map (updateLine later) = dividerBelow kept :=
  map_eq_self fun _ hline =>
    updateLine_of_keyless (keyOf?_of_equals_not_mem (equals_not_mem_dividerBelow hline).1)

theorem map_updateLine_updateLine (hfirst : HasWritableKeys first) (later : Entries)
    (lines : List (List UInt8)) :
    (lines.map (updateLine first)).map (updateLine later) =
      lines.map (updateLine (first.merge later)) := by
  rw [List.map_map]
  exact List.map_congr_left fun _ _ => updateLine_updateLine hfirst later

section Added

variable (hfirst : HasWritableKeys first) (habsent : absentFrom lines first ≠ [])

include hfirst habsent

/-- Lines to which an edit has added settings are all kept. -/
theorem keptLines_editedLines : keptLines (editedLines first lines) = editedLines first lines := by
  rw [editedLines_of_absentFrom_ne_nil hfirst habsent]
  exact keptLines_append_settingLines habsent (fun pair hpair => hfirst.of_mem (mem_absentFrom.mp hpair).1) _

/-- The separator that an edit has put is not put again. -/
theorem dividerBelow_editedLines (hkept : keptLines lines ≠ []) :
    dividerBelow (editedLines first lines) = [] := by
  have hmapped : (keptLines lines).map (updateLine first) ≠ [] := by simpa using hkept
  have hsame : dividerBelow ((keptLines lines).map (updateLine first)) = dividerBelow (keptLines lines) :=
    dividerBelow_map_updateLine hfirst
  rw [editedLines_of_absentFrom_ne_nil hfirst habsent, ← hsame]
  exact dividerBelow_divided hmapped _

theorem map_updateLine_editedLines (later : Entries) :
    (editedLines first lines).map (updateLine later) =
      (keptLines lines).map (updateLine (first.merge later)) ++ dividerBelow (keptLines lines) ++
        settingLines ((absentFrom lines first).map fun pair =>
          (pair.1, (later.get? pair.1).getD pair.2)) := by
  rw [editedLines_of_absentFrom_ne_nil hfirst habsent, List.map_append, List.map_append,
    map_updateLine_updateLine hfirst, map_updateLine_dividerBelow,
    map_updateLine_settingLines fun pair hpair => hfirst.of_mem (mem_absentFrom.mp hpair).1]

end Added

/-- **Two edits of lines are one.** -/
theorem editedLines_editedLines (hfirst : HasWritableKeys first) (hlater : HasWritableKeys later)
    (hroom : keptLines lines ≠ [] ∨ ∀ key ∈ later.keys, key ∈ first.keys) :
    editedLines later (editedLines first lines) = editedLines (first.merge later) lines := by
  have hmerged := hfirst.merge hlater
  have habsent := absentFrom_merge hfirst later lines
  by_cases hfirstAbsent : absentFrom lines first = []
  · have hedited := editedLines_of_absentFrom_eq_nil hfirstAbsent
    rw [hfirstAbsent, List.map_nil, List.nil_append] at habsent
    by_cases hlaterAbsent : absentFrom (editedLines first lines) later = []
    · rw [editedLines_of_absentFrom_eq_nil hlaterAbsent, hedited,
        editedLines_of_absentFrom_eq_nil (habsent.trans hlaterAbsent),
        map_updateLine_updateLine hfirst]
    · rw [editedLines_of_absentFrom_ne_nil hlater hlaterAbsent,
        editedLines_of_absentFrom_ne_nil hmerged (habsent ▸ hlaterAbsent), habsent, hedited,
        keptLines_map_updateLine hfirst, map_updateLine_updateLine hfirst,
        dividerBelow_map_updateLine hfirst]
  · have hmapped := map_updateLine_editedLines hfirst hfirstAbsent later
    have hmergedAbsent : absentFrom lines (first.merge later) ≠ [] := by
      rw [habsent]
      simp [hfirstAbsent]
    rw [editedLines_of_absentFrom_ne_nil hmerged hmergedAbsent, habsent, settingLines_append]
    by_cases hlaterAbsent : absentFrom (editedLines first lines) later = []
    · rw [editedLines_of_absentFrom_eq_nil hlaterAbsent, hmapped, hlaterAbsent]
      exact (congrArg _ (List.append_nil _)).symm
    · have hkept : keptLines lines ≠ [] := by
        refine hroom.resolve_right fun hsub => ?_
        obtain ⟨pair, hpair⟩ := List.exists_mem_of_ne_nil _ hlaterAbsent
        rw [mem_absentFrom, glyphs_mem_editedLines_iff hfirst, not_or] at hpair
        exact hpair.2.2 (hsub pair.1 (List.mem_map_of_mem hpair.1))
      rw [editedLines_of_absentFrom_ne_nil hlater hlaterAbsent, keptLines_editedLines hfirst hfirstAbsent,
        dividerBelow_editedLines hfirst hfirstAbsent hkept, hmapped, List.append_nil,
        List.append_assoc _ (settingLines _)]

/-- Only what is above the empty lines at the end counts for an edit. -/
theorem trimEmpty_editedLines_congr {other : List (List UInt8)} (hkeys : HasWritableKeys entries)
    (htrim : trimEmpty lines = trimEmpty other) :
    trimEmpty (editedLines entries lines) = trimEmpty (editedLines entries other) := by
  have hkept : keptLines lines = keptLines other := by
    rw [← keptLines_trimEmpty, htrim, keptLines_trimEmpty]
  have habsent : absentFrom lines entries = absentFrom other entries := by
    unfold absentFrom
    rw [← filterMap_trimEmpty keyOf?_nil lines, htrim, filterMap_trimEmpty keyOf?_nil]
  by_cases hnil : absentFrom other entries = []
  · rw [editedLines_of_absentFrom_eq_nil hnil,
      editedLines_of_absentFrom_eq_nil (habsent.trans hnil), trimEmpty, trimEmpty,
      dropEndWhile_map (fun _ => isEmpty_updateLine hkeys),
      dropEndWhile_map (fun _ => isEmpty_updateLine hkeys)]
    exact congrArg _ htrim
  · rw [editedLines_of_absentFrom_ne_nil hkeys hnil,
      editedLines_of_absentFrom_ne_nil hkeys (habsent ▸ hnil), habsent, hkept]

theorem lf_not_mem_editedLines (hkeys : HasWritableKeys entries)
    (hlines : ∀ line ∈ lines, Byte.lf ∉ line) :
    ∀ line ∈ editedLines entries lines, Byte.lf ∉ line :=
  forall_mem_editedLines hkeys
    (fun line hline => lf_not_mem_updateLine hkeys (hlines line hline))
    (fun _ hdivider => hdivider.2.1)
    (fun _ hpair => lf_not_mem_settingLine (hkeys.of_mem hpair) _)

/-- **Two edits of a file are one.** -/
theorem setEntries_setEntries (hfirst : HasWritableKeys first) (hvalues : HasFileValues first)
    (hlater : HasWritableKeys later)
    (hroom : (∃ line ∈ linesOf content, isBlankLine line = false) ∨
      ∀ key ∈ later.keys, key ∈ first.keys) :
    setEntries later (some (setEntries first content)) =
      setEntries (first.merge later) content := by
  have hold : ∀ line ∈ linesOf content, Byte.lf ∉ line :=
    fun line hline => (isFileLine_of_mem_linesOf hline).1
  have hnew : ∀ line ∈ linesOf (some (setEntries first content)), Byte.lf ∉ line :=
    fun line hline => (isFileLine_of_mem_linesOf hline).1
  have hroom' : keptLines (linesOf content) ≠ [] ∨ ∀ key ∈ later.keys, key ∈ first.keys := by
    refine hroom.imp_left ?_
    rintro ⟨line, hline, hblank⟩ hnil
    rw [keptLines_eq_nil_iff.mp hnil line hline] at hblank
    exact Bool.noConfusion hblank
  rw [setEntries_eq later, setEntries_eq (first.merge later)]
  refine joinByteLines_congr (lf_not_mem_editedLines hlater hnew)
    (lf_not_mem_editedLines (hfirst.merge hlater) hold) ?_
  rw [← editedLines_editedLines hfirst hlater hroom']
  refine trimEmpty_editedLines_congr hlater ?_
  rw [linesOf_setEntries hfirst hvalues, trimEmpty_writtenLines_append]

end EnvFill.EnvFile
