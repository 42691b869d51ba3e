import EnvFill.Proofs.EditedLines

/-!
# Reading back what was written

The settings read from an edited file are those read before with the new ones merged in, order
included. The key of a line must be text for this, since the two readings of the line differ in what
they make of other bytes; an edit keeps that.
-/

namespace EnvFill.EnvFile

open Text

variable {entries : Entries} {content : Option (List UInt8)} {lines : List (List UInt8)}

def settingsOf (content : Option (List UInt8)) : Entries := content.elim ∅ Entries.ofBytes

theorem settingsOf_eq (content : Option (List UInt8)) :
    settingsOf content = OrderedMap.ofList ((linesOf content).filterMap settingOf?) := by
  cases content with
  | none => rfl
  | some bytes => exact ofBytes_eq bytes

def HavePlainKeys (lines : List (List UInt8)) : Prop := ∀ line ∈ lines, HasPlainKey line

instance : DecidablePred HasPlainKey := fun line =>
  inferInstanceAs (Decidable (∀ parts ∈ cutAtFirst (· == equalsByte) line, _))

instance : DecidablePred HavePlainKeys := fun lines =>
  inferInstanceAs (Decidable (∀ line ∈ lines, HasPlainKey line))

theorem isFileLine_of_mem_linesOf {line : List UInt8} (hline : line ∈ linesOf content) :
    IsFileLine line := by
  cases content with
  | none => simp [linesOf] at hline
  | some bytes => exact isFileLine_of_mem_byteLines hline

theorem isFileLine_of_mem_editedLines (hkeys : HasWritableKeys entries)
    (hvalues : HasFileValues entries) (hlines : ∀ line ∈ lines, IsFileLine line) :
    ∀ line ∈ editedLines entries lines, IsFileLine line :=
  forall_mem_editedLines hkeys
    (fun line hline => isFileLine_updateLine hkeys hvalues (hlines line hline))
    (fun _ hdivider => hdivider.2)
    (fun pair hpair => isFileLine_settingLine (hkeys.of_mem hpair) (hvalues pair hpair))

/-- The lines of an edited file. -/
theorem linesOf_setEntries (hkeys : HasWritableKeys entries) (hvalues : HasFileValues entries)
    (content : Option (List UInt8)) :
    linesOf (some (setEntries entries content)) =
      writtenLines (editedLines entries (linesOf content)) ++ [[]] := by
  rw [setEntries_eq]
  exact byteLines_joinByteLines
    (isFileLine_of_mem_editedLines hkeys hvalues fun _ => isFileLine_of_mem_linesOf)

theorem filterMap_writtenLines_append {β : Type} {f : List UInt8 → Option β} (hnil : f [] = none)
    (lines : List (List UInt8)) :
    (writtenLines lines ++ [[]]).filterMap f = lines.filterMap f := by
  rw [← filterMap_trimEmpty hnil, trimEmpty_writtenLines_append, filterMap_trimEmpty hnil]

theorem HavePlainKeys.setEntries (hkeys : HasWritableKeys entries)
    (hvalues : HasFileValues entries) (hplain : HavePlainKeys (linesOf content)) :
    HavePlainKeys (linesOf (some (setEntries entries content))) := by
  have hedited : HavePlainKeys (editedLines entries (linesOf content)) :=
    forall_mem_editedLines hkeys
      (fun line hline => hasPlainKey_updateLine hkeys (hplain line hline))
      (fun _ hdivider => hasPlainKey_of_equals_not_mem hdivider.1)
      (fun _ hpair => hasPlainKey_settingLine (hkeys.of_mem hpair) _)
  have hnil : HasPlainKey [] := hasPlainKey_of_equals_not_mem List.not_mem_nil
  intro line hline
  rw [linesOf_setEntries hkeys hvalues, List.mem_append, List.mem_singleton] at hline
  rcases hline with hline | rfl
  · exact forall_mem_writtenLines hnil hedited line hline
  · exact hnil

theorem keyOf?_mem_iff (hplain : HavePlainKeys lines) {key : String} :
    glyphs key ∈ lines.filterMap keyOf? ↔
      key ∈ (lines.filterMap settingOf?).map Prod.fst := by
  have hkeys : lines.filterMap keyOf? =
      ((lines.filterMap settingOf?).map Prod.fst).map glyphs := by
    rw [List.map_map, List.map_filterMap]
    exact List.filterMap_congr fun line hline => keyOf?_eq_of_plainKey (hplain line hline)
  rw [hkeys, List.mem_map_of_injective glyphs_injective]

/-- The settings that an edit adds are read as they are. -/
theorem filterMap_settingLines_absentFrom (hkeys : HasWritableKeys entries) :
    (settingLines (absentFrom lines entries)).filterMap settingOf? = absentFrom lines entries := by
  rw [settingLines, List.filterMap_map]
  refine Eq.trans (List.filterMap_congr fun pair hpair => ?_) List.filterMap_some
  exact settingOf?_settingLine (hkeys.of_mem (mem_absentFrom.mp hpair).1) pair.2

/-- Settings after an edit, line by line: old lines with new values, then the new settings. -/
theorem settingsOf_setEntries_eq (hkeys : HasWritableKeys entries) (hvalues : HasFileValues entries)
    (content : Option (List UInt8)) :
    settingsOf (some (setEntries entries content)) =
      OrderedMap.ofList ((linesOf content).filterMap (settingOf? ∘ updateLine entries) ++
        absentFrom (linesOf content) entries) := by
  rw [settingsOf_eq, linesOf_setEntries hkeys hvalues,
    filterMap_writtenLines_append (settingOf?_of_equals_not_mem List.not_mem_nil),
    filterMap_editedLines hkeys (fun _ _ => settingOf?_of_isBlankLine)
      fun _ => settingOf?_of_equals_not_mem,
    filterMap_settingLines_absentFrom hkeys]

/-- **A file after an edit is read as the merge.** -/
theorem settingsOf_setEntries (hkeys : HasWritableKeys entries) (hvalues : HasFileValues entries)
    (hplain : HavePlainKeys (linesOf content)) :
    settingsOf (some (setEntries entries content)) = (settingsOf content).merge entries := by
  have hupdated : (linesOf content).filterMap (settingOf? ∘ updateLine entries) =
      ((linesOf content).filterMap settingOf?).map fun pair =>
        (pair.1, (entries.get? pair.1).getD pair.2) := by
    rw [List.map_filterMap]
    exact List.filterMap_congr fun line hline => settingOf?_updateLine hkeys (hplain line hline)
  have habsent : absentFrom (linesOf content) entries =
      entries.toList.filter fun pair =>
        pair.1 ∉ ((linesOf content).filterMap settingOf?).map Prod.fst := by
    refine List.filter_congr fun pair _ => ?_
    rw [Bool.eq_iff_iff, Bool.not_eq_true', decide_eq_true_iff, ← keyOf?_mem_iff hplain]
    simp
  rw [settingsOf_setEntries_eq hkeys hvalues, hupdated, habsent, settingsOf_eq]
  exact OrderedMap.ofList_append_eq_merge _ entries

end EnvFill.EnvFile
