import EnvFill.Proofs.Merge
import EnvFill.Proofs.SettingLine

/-!
# Lines after an edit

An edit keeps the key of every line, and with it everything that later edits look at. What it adds
stands below the last line that is not blank.
-/

namespace EnvFill.EnvFile

open Text

/-- Settings of which every key is read back as it is written. -/
def HasWritableKeys (entries : Entries) : Prop := ∀ key ∈ entries.keys, IsWritableKey key

def HasFileValues (entries : Entries) : Prop := ∀ pair ∈ entries.toList, '\r' ∉ pair.2.toList

instance : DecidablePred HasWritableKeys := fun entries =>
  inferInstanceAs (Decidable (∀ key ∈ entries.keys, IsWritableKey key))

instance : DecidablePred HasFileValues := fun entries =>
  inferInstanceAs (Decidable (∀ pair ∈ entries.toList, '\r' ∉ pair.2.toList))

variable {entries first later : Entries} {line : List UInt8} {lines : List (List UInt8)}

theorem HasWritableKeys.of_mem (hkeys : HasWritableKeys entries) {pair : String × String}
    (hpair : pair ∈ entries.toList) : IsWritableKey pair.1 :=
  hkeys pair.1 (List.mem_map_of_mem hpair)

theorem HasWritableKeys.merge (hfirst : HasWritableKeys first) (hlater : HasWritableKeys later) :
    HasWritableKeys (first.merge later) := by
  intro key hkey
  rcases OrderedMap.mem_keys_merge.mp hkey with hkey | hkey
  · exact hfirst key hkey
  · exact hlater key hkey

theorem HasFileValues.merge (hfirst : HasFileValues first) (hlater : HasFileValues later) :
    HasFileValues (first.merge later) := by
  intro pair hpair
  have hget := OrderedMap.get?_eq_some hpair
  rw [OrderedMap.get?_merge] at hget
  rcases Option.or_eq_some_iff.mp hget with hget | ⟨-, hget⟩
  · exact hlater _ (OrderedMap.mem_of_get? hget)
  · exact hfirst _ (OrderedMap.mem_of_get? hget)

/-! ### One line -/

section UpdateLine

theorem settingFor?_of_key {key : String} (hkey : keyOf? line = some (glyphs key)) :
    settingFor? entries line = (entries.get? key).map fun value => (key, value) := by
  have hsame : (fun pair : String × String => glyphs pair.1 == glyphs key) =
      fun pair => pair.1 == key := by
    funext pair
    rw [Bool.eq_iff_iff, beq_iff_eq, beq_iff_eq]
    exact glyphs_injective.eq_iff
  unfold settingFor? OrderedMap.get?
  rw [hkey, Option.bind_some, hsame, Option.map_map]
  cases hfind : entries.toList.find? fun pair => pair.1 == key with
  | none => rfl
  | some pair =>
    have hpair : pair.1 = key := by simpa using List.find?_some hfind
    rw [Option.map_some, Function.comp_apply, ← hpair]

/-- **What becomes of a line.** -/
theorem updateLine_cases (entries : Entries) (line : List UInt8) :
    (∃ key value, (key, value) ∈ entries.toList ∧ keyOf? line = some (glyphs key) ∧
        updateLine entries line = settingLine key value) ∨
      (∀ key ∈ entries.keys, keyOf? line ≠ some (glyphs key)) ∧
        updateLine entries line = line := by
  by_cases hkey : ∃ key ∈ entries.keys, keyOf? line = some (glyphs key)
  · obtain ⟨key, hmem, hkey⟩ := hkey
    obtain ⟨value, hpair⟩ := OrderedMap.exists_mem_of_mem_keys hmem
    refine .inl ⟨key, value, hpair, hkey, ?_⟩
    rw [updateLine, settingFor?_of_key hkey, OrderedMap.get?_eq_some hpair]
    rfl
  · have hother : ∀ key ∈ entries.keys, keyOf? line ≠ some (glyphs key) :=
      fun key hmem heq => hkey ⟨key, hmem, heq⟩
    refine .inr ⟨hother, ?_⟩
    have hnone : settingFor? entries line = none := by
      unfold settingFor?
      rw [Option.bind_eq_none_iff]
      intro found hfound
      rw [List.find?_eq_none]
      intro pair hpair hglyphs
      have hsame : glyphs pair.1 = found := by simpa using hglyphs
      exact hother pair.1 (List.mem_map_of_mem hpair) (hsame ▸ hfound)
    rw [updateLine, hnone]

theorem updateLine_of_key {key value : String} (hkey : keyOf? line = some (glyphs key))
    (hvalue : entries.get? key = some value) : updateLine entries line = settingLine key value := by
  rw [updateLine, settingFor?_of_key hkey, hvalue]
  rfl

theorem updateLine_of_not_key (hkey : ∀ key ∈ entries.keys, keyOf? line ≠ some (glyphs key)) :
    updateLine entries line = line := by
  rcases updateLine_cases entries line with ⟨key, value, hpair, hkey', -⟩ | ⟨-, hline⟩
  · exact absurd hkey' (hkey key (List.mem_map_of_mem hpair))
  · exact hline

theorem updateLine_of_keyless (hline : keyOf? line = none) : updateLine entries line = line :=
  updateLine_of_not_key fun key _ => by simp [hline]

variable (hkeys : HasWritableKeys entries)

include hkeys

theorem keyOf?_updateLine : keyOf? (updateLine entries line) = keyOf? line := by
  rcases updateLine_cases entries line with ⟨key, value, hpair, hkey, hline⟩ | ⟨-, hline⟩
  · rw [hline, keyOf?_settingLine (hkeys.of_mem hpair), hkey]
  · rw [hline]

/-- What holds of every line without a key or of none does not change. -/
theorem updateLine_of_keyless_property {p : List UInt8 → Bool}
    (hp : ∀ line, p line = true → keyOf? line = none) :
    p (updateLine entries line) = p line := by
  rw [Bool.eq_iff_iff]
  constructor
  · intro hline
    have hnone := hp _ hline
    rw [keyOf?_updateLine hkeys] at hnone
    rwa [updateLine_of_keyless hnone] at hline
  · intro hline
    rwa [updateLine_of_keyless (hp line hline)]

theorem isBlankLine_updateLine : isBlankLine (updateLine entries line) = isBlankLine line :=
  updateLine_of_keyless_property hkeys fun _ => keyOf?_of_isBlankLine

theorem isSeparator_updateLine : isSeparator (updateLine entries line) = isSeparator line :=
  updateLine_of_keyless_property hkeys fun _ => keyOf?_of_isSeparator

theorem isEmpty_updateLine : (updateLine entries line).isEmpty = line.isEmpty := by
  refine updateLine_of_keyless_property hkeys fun line hline => ?_
  rw [List.isEmpty_iff.mp hline]
  exact keyOf?_of_equals_not_mem List.not_mem_nil

/-- **Two updates of a line are one.** -/
theorem updateLine_updateLine (later : Entries) :
    updateLine later (updateLine entries line) = updateLine (entries.merge later) line := by
  rcases updateLine_cases (entries.merge later) line with
    ⟨key, value, hpair, hkey, hline⟩ | ⟨hother, hline⟩
  · have hget := OrderedMap.get?_eq_some hpair
    have hkey' : keyOf? (updateLine entries line) = some (glyphs key) := by
      rw [keyOf?_updateLine hkeys, hkey]
    rw [OrderedMap.get?_merge] at hget
    rw [hline]
    rcases Option.or_eq_some_iff.mp hget with hlater | ⟨hlater, hfirst⟩
    · exact updateLine_of_key hkey' hlater
    · rw [updateLine, settingFor?_of_key hkey', hlater]
      exact updateLine_of_key hkey hfirst
  · have hfirst : updateLine entries line = line :=
      updateLine_of_not_key fun key hmem => hother key (OrderedMap.mem_keys_merge.mpr (.inl hmem))
    rw [hline, hfirst]
    exact updateLine_of_not_key fun key hmem => hother key (OrderedMap.mem_keys_merge.mpr (.inr hmem))

theorem lf_not_mem_updateLine (hline : Byte.lf ∉ line) : Byte.lf ∉ updateLine entries line := by
  rcases updateLine_cases entries line with ⟨key, value, hpair, -, hupdate⟩ | ⟨-, hupdate⟩
  · rw [hupdate]
    exact lf_not_mem_settingLine (hkeys.of_mem hpair) value
  · rwa [hupdate]

theorem isFileLine_updateLine (hvalues : HasFileValues entries) (hline : IsFileLine line) :
    IsFileLine (updateLine entries line) := by
  rcases updateLine_cases entries line with ⟨key, value, hpair, -, hupdate⟩ | ⟨-, hupdate⟩
  · rw [hupdate]
    exact isFileLine_settingLine (hkeys.of_mem hpair) (hvalues _ hpair)
  · rwa [hupdate]

theorem hasPlainKey_updateLine (hline : HasPlainKey line) :
    HasPlainKey (updateLine entries line) := by
  rcases updateLine_cases entries line with ⟨key, value, hpair, -, hupdate⟩ | ⟨-, hupdate⟩
  · rw [hupdate]
    exact hasPlainKey_settingLine (hkeys.of_mem hpair) value
  · rwa [hupdate]

theorem settingOf?_updateLine (hline : HasPlainKey line) :
    settingOf? (updateLine entries line) =
      (settingOf? line).map fun pair => (pair.1, (entries.get? pair.1).getD pair.2) := by
  have hkey := keyOf?_eq_of_plainKey hline
  cases hsetting : settingOf? line with
  | none =>
    rw [hsetting] at hkey
    rw [updateLine_of_keyless hkey, hsetting]
    rfl
  | some pair =>
    rw [hsetting, Option.map_some] at hkey
    cases hget : entries.get? pair.1 with
    | none =>
      rw [updateLine, settingFor?_of_key hkey, hget, Option.map_none]
      dsimp only
      rw [hsetting, Option.map_some, hget, Option.getD_none]
    | some value =>
      have hpair := OrderedMap.mem_of_get? hget
      rw [updateLine_of_key hkey hget, settingOf?_settingLine (hkeys.of_mem hpair),
        Option.map_some, hget, Option.getD_some]

end UpdateLine

/-! ### All lines -/

def keptLines (lines : List (List UInt8)) : List (List UInt8) := dropEndWhile isBlankLine lines

def separatorLines : List (List UInt8) := [[], Utf8.encodeText separator.toList]

def dividerBelow (kept : List (List UInt8)) : List (List UInt8) :=
  if kept.isEmpty || kept.any isSeparator then [] else separatorLines

def settingLines (pairs : List (String × String)) : List (List UInt8) :=
  pairs.map fun pair => settingLine pair.1 pair.2

def editedLines (entries : Entries) (lines : List (List UInt8)) : List (List UInt8) :=
  addSettings (absentFrom lines entries) (lines.map (updateLine entries))

theorem setEntries_eq (entries : Entries) (content : Option (List UInt8)) :
    setEntries entries content = joinByteLines (editedLines entries (linesOf content)) := rfl

theorem mem_absentFrom {pair : String × String} :
    pair ∈ absentFrom lines entries ↔
      pair ∈ entries.toList ∧ glyphs pair.1 ∉ lines.filterMap keyOf? := by
  simp [absentFrom]

theorem keptLines_map_updateLine (hkeys : HasWritableKeys entries) :
    keptLines (lines.map (updateLine entries)) = (keptLines lines).map (updateLine entries) :=
  dropEndWhile_map (fun _ => isBlankLine_updateLine hkeys) lines

theorem dividerBelow_map_updateLine (hkeys : HasWritableKeys entries) :
    dividerBelow (lines.map (updateLine entries)) = dividerBelow lines := by
  have hseparator : isSeparator ∘ updateLine entries = isSeparator :=
    funext fun _ => isSeparator_updateLine hkeys
  unfold dividerBelow
  rw [List.any_map, hseparator]
  cases lines <;> rfl

theorem editedLines_of_absentFrom_eq_nil (habsent : absentFrom lines entries = []) :
    editedLines entries lines = lines.map (updateLine entries) := by
  rw [editedLines, habsent]
  rfl

theorem editedLines_of_absentFrom_ne_nil (hkeys : HasWritableKeys entries)
    (habsent : absentFrom lines entries ≠ []) :
    editedLines entries lines =
      (keptLines lines).map (updateLine entries) ++ dividerBelow (keptLines lines) ++
        settingLines (absentFrom lines entries) := by
  have hedit : editedLines entries lines =
      keptLines (lines.map (updateLine entries)) ++
        dividerBelow (keptLines (lines.map (updateLine entries))) ++
          settingLines (absentFrom lines entries) :=
    if_neg (by simpa using habsent)
  rw [hedit, keptLines_map_updateLine hkeys, dividerBelow_map_updateLine hkeys]

theorem equals_not_mem_dividerBelow {kept : List (List UInt8)} (hline : line ∈ dividerBelow kept) :
    equalsByte ∉ line ∧ IsFileLine line := by
  have hmem : line ∈ separatorLines := by
    unfold dividerBelow at hline
    split at hline
    · simp at hline
    · exact hline
  have hall : ∀ line ∈ separatorLines, equalsByte ∉ line ∧ Byte.lf ∉ line ∧ Byte.cr ∉ line := by
    decide
  exact hall line hmem

/-- A property of all lines after an edit. -/
theorem forall_mem_editedLines {P : List UInt8 → Prop} (hkeys : HasWritableKeys entries)
    (hold : ∀ line ∈ lines, P (updateLine entries line))
    (hdivider : ∀ line, equalsByte ∉ line ∧ IsFileLine line → P line)
    (hnew : ∀ pair ∈ entries.toList, P (settingLine pair.1 pair.2)) :
    ∀ line ∈ editedLines entries lines, P line := by
  intro line hline
  by_cases habsent : absentFrom lines entries = []
  · rw [editedLines_of_absentFrom_eq_nil habsent] at hline
    obtain ⟨old, hmem, rfl⟩ := List.mem_map.mp hline
    exact hold old hmem
  · rw [editedLines_of_absentFrom_ne_nil hkeys habsent, List.mem_append, List.mem_append] at hline
    rcases hline with (hline | hline) | hline
    · obtain ⟨old, hmem, rfl⟩ := List.mem_map.mp hline
      exact hold old ((List.rdropWhile_prefix isBlankLine lines).subset hmem)
    · exact hdivider line (equals_not_mem_dividerBelow hline)
    · obtain ⟨pair, hpair, rfl⟩ := List.mem_map.mp hline
      exact hnew pair (mem_absentFrom.mp hpair).1

/-- What blank lines and lines without `=` do not contribute to is found in the updated lines and
the new ones. -/
theorem filterMap_editedLines {β : Type} {f : List UInt8 → Option β}
    (hkeys : HasWritableKeys entries)
    (hblank : ∀ line ∈ lines, isBlankLine line = true → f line = none)
    (hdivider : ∀ line, equalsByte ∉ line → f line = none) :
    (editedLines entries lines).filterMap f =
      lines.filterMap (f ∘ updateLine entries) ++
        (settingLines (absentFrom lines entries)).filterMap f := by
  by_cases habsent : absentFrom lines entries = []
  · rw [editedLines_of_absentFrom_eq_nil habsent, habsent, List.filterMap_map]
    exact (List.append_nil _).symm
  · obtain ⟨tail, hlines, htail⟩ := exists_append_dropEndWhile isBlankLine lines
    have htailNone : tail.filterMap (f ∘ updateLine entries) = [] := by
      rw [List.filterMap_eq_nil_iff]
      intro line hline
      have hmem : line ∈ lines := hlines ▸ List.mem_append_right _ hline
      rw [Function.comp_apply, updateLine_of_keyless (keyOf?_of_isBlankLine (htail line hline))]
      exact hblank line hmem (htail line hline)
    have hdividerNone : (dividerBelow (keptLines lines)).filterMap f = [] := by
      rw [List.filterMap_eq_nil_iff]
      exact fun line hline => hdivider line (equals_not_mem_dividerBelow hline).1
    have hkept : lines.filterMap (f ∘ updateLine entries) =
        (keptLines lines).filterMap (f ∘ updateLine entries) := by
      rw [keptLines]
      conv_lhs => rw [hlines, List.filterMap_append, htailNone, List.append_nil]
    rw [editedLines_of_absentFrom_ne_nil hkeys habsent, List.filterMap_append,
      List.filterMap_append, hdividerNone, List.append_nil, List.filterMap_map, hkept]

end EnvFill.EnvFile
