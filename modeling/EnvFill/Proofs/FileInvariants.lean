import EnvFill.Proofs.FileRuns
import EnvFill.Proofs.UntouchedLines

/-!
# Invariants of runs of writes

However often settings are written to a file, no key comes to stand in more lines than it had, the
separator is put there once at most, and what was added stands below a separator. Each of these is
shown for one edit and carried through a run by induction.
-/

namespace EnvFill.EnvFile

open Text Project

variable {entries : Entries} {batches : List Entries} {content : Option (List UInt8)}
  {lines : List (List UInt8)} {key : List Glyph} {p : List UInt8 → Bool}

/-- The number of lines with a key. Bytes outside any character belong to a key as well. -/
def keyCount (key : List Glyph) (lines : List (List UInt8)) : Nat :=
  lines.countP fun line => keyOf? line == some key

def separatorCount (lines : List (List UInt8)) : Nat := lines.countP isSeparator

def addedLines (entries : Entries) (lines : List (List UInt8)) : List (List UInt8) :=
  if absentFrom lines entries = [] then []
  else dividerBelow (keptLines lines) ++ settingLines (absentFrom lines entries)

/-! ### One edit -/

theorem countP_keptLines (hblank : ∀ line, isBlankLine line = true → p line = false)
    (lines : List (List UInt8)) : (keptLines lines).countP p = lines.countP p := by
  obtain ⟨tail, hlines, htail⟩ := exists_append_dropEndWhile isBlankLine lines
  have hnone : tail.countP p = 0 := by
    rw [List.countP_eq_zero]
    intro line hline
    simp [hblank line (htail line hline)]
  conv_rhs => rw [hlines, List.countP_append, hnone]
  rfl

theorem countP_writtenLines_append (hnil : p [] = false) (lines : List (List UInt8)) :
    (writtenLines lines ++ [[]]).countP p = lines.countP p := by
  have hguard : Option.guard p [] = none := by simp [Option.guard, hnil]
  have hcount : ∀ lines : List (List UInt8),
      lines.countP p = (lines.filterMap (Option.guard p)).length := by
    intro lines
    rw [List.countP_eq_length_filter, List.filterMap_eq_filter]
  rw [hcount, filterMap_writtenLines_append hguard, ← hcount]

/-- An edit changes the number of lines with a property by the lines that it adds, if updates and
blank lines do not matter for the property. -/
theorem countP_editedLines (hkeys : HasWritableKeys entries)
    (hupdate : ∀ line, p (updateLine entries line) = p line)
    (hblank : ∀ line, isBlankLine line = true → p line = false) :
    (editedLines entries lines).countP p = lines.countP p + (addedLines entries lines).countP p := by
  have hmap : ∀ lines : List (List UInt8), (lines.map (updateLine entries)).countP p =
      lines.countP p := by
    intro lines
    rw [List.countP_map, show p ∘ updateLine entries = p from funext hupdate]
  unfold addedLines
  by_cases habsent : absentFrom lines entries = []
  · rw [if_pos habsent, editedLines_of_absentFrom_eq_nil habsent, hmap]
    rfl
  · rw [if_neg habsent, editedLines_of_absentFrom_ne_nil hkeys habsent, List.append_assoc,
      List.countP_append, hmap, countP_keptLines hblank]

theorem countP_linesOf_setEntries (hentries : IsReadBack entries)
    (hupdate : ∀ line, p (updateLine entries line) = p line)
    (hblank : ∀ line, isBlankLine line = true → p line = false) (content : Option (List UInt8)) :
    (linesOf (some (setEntries entries content))).countP p =
      (linesOf content).countP p + (addedLines entries (linesOf content)).countP p := by
  have hnil : p [] = false := hblank [] (isBlankLine_of_isEmpty rfl)
  rw [linesOf_setEntries hentries.keys hentries.values, countP_writtenLines_append hnil,
    countP_editedLines hentries.keys hupdate hblank]

theorem keyCount_eq_zero_iff : keyCount key lines = 0 ↔ key ∉ lines.filterMap keyOf? := by
  simp [keyCount, List.countP_eq_zero]

theorem keyCount_dividerBelow (key : List Glyph) (lines : List (List UInt8)) :
    keyCount key (dividerBelow lines) = 0 := by
  rw [keyCount_eq_zero_iff, List.mem_filterMap]
  rintro ⟨line, hline, hkey⟩
  rw [keyOf?_of_equals_not_mem (equals_not_mem_dividerBelow hline).1] at hkey
  exact Option.some_ne_none _ hkey.symm

theorem keyCount_settingLines {pairs : List (String × String)}
    (hpairs : ∀ pair ∈ pairs, IsWritableKey pair.1) (key : List Glyph) :
    keyCount key (settingLines pairs) = (pairs.map fun pair => glyphs pair.1).count key := by
  rw [keyCount, settingLines, List.countP_map, List.count, List.countP_map]
  refine List.countP_congr fun pair hpair => ?_
  have hkey := keyOf?_settingLine (hpairs pair hpair) pair.2
  simp [hkey]

theorem nodup_absentKeys (lines : List (List UInt8)) (entries : Entries) :
    ((absentFrom lines entries).map fun pair => glyphs pair.1).Nodup := by
  have hall : (entries.toList.map fun pair => glyphs pair.1).Nodup := by
    have hmapped := entries.nodup_keys.map glyphs_injective
    rwa [List.map_map] at hmapped
  exact hall.sublist (List.filter_sublist.map _)

theorem mem_absentKeys_iff :
    key ∈ ((absentFrom lines entries).map fun pair => glyphs pair.1) ↔
      keyCount key lines = 0 ∧ key ∈ entries.keys.map glyphs := by
  rw [keyCount_eq_zero_iff, List.mem_map, List.mem_map]
  constructor
  · rintro ⟨pair, hpair, rfl⟩
    obtain ⟨hmem, habsent⟩ := mem_absentFrom.mp hpair
    exact ⟨habsent, pair.1, List.mem_map_of_mem hmem, rfl⟩
  · rintro ⟨habsent, name, hname, rfl⟩
    obtain ⟨value, hpair⟩ := OrderedMap.exists_mem_of_mem_keys hname
    exact ⟨(name, value), mem_absentFrom.mpr ⟨hpair, habsent⟩, rfl⟩

/-- Each key that is absent is added once. -/
theorem keyCount_addedLines (hkeys : HasWritableKeys entries) :
    keyCount key (addedLines entries lines) =
      if keyCount key lines = 0 ∧ key ∈ entries.keys.map glyphs then 1 else 0 := by
  have hadded : keyCount key (addedLines entries lines) =
      keyCount key (settingLines (absentFrom lines entries)) := by
    unfold addedLines
    split
    · rename_i habsent
      rw [habsent]
      rfl
    · rw [keyCount, List.countP_append, ← keyCount, ← keyCount, keyCount_dividerBelow, Nat.zero_add]
  rw [hadded, keyCount_settingLines fun pair hpair => hkeys.of_mem (mem_absentFrom.mp hpair).1,
    (nodup_absentKeys lines entries).count]
  exact if_congr mem_absentKeys_iff rfl rfl

/-- **Keys after an edit.** A key keeps its number of lines, and a new one has one line. -/
theorem keyCount_setEntries (hentries : IsReadBack entries) (content : Option (List UInt8)) :
    keyCount key (linesOf (some (setEntries entries content))) =
      if keyCount key (linesOf content) = 0 ∧ key ∈ entries.keys.map glyphs then 1
      else keyCount key (linesOf content) := by
  have hupdate : ∀ line, (keyOf? (updateLine entries line) == some key) = (keyOf? line == some key) :=
    fun line => by rw [keyOf?_updateLine hentries.keys]
  have hblank : ∀ line, isBlankLine line = true → (keyOf? line == some key) = false :=
    fun line hline => by rw [keyOf?_of_isBlankLine hline]; rfl
  have hadded : keyCount key (addedLines entries (linesOf content)) = _ :=
    keyCount_addedLines hentries.keys
  have hcount := countP_linesOf_setEntries hentries hupdate hblank content
  calc keyCount key (linesOf (some (setEntries entries content)))
      = keyCount key (linesOf content) + keyCount key (addedLines entries (linesOf content)) := hcount
    _ = _ := by
        rw [hadded]
        split <;> omega

theorem isSeparator_eq_false_of_isBlankLine {line : List UInt8} (hblank : isBlankLine line = true) :
    isSeparator line = false := by
  rw [isSeparator, strip_eq_nil_iff.mpr hblank]
  decide

theorem separatorCount_addedLines (hkeys : HasWritableKeys entries) :
    separatorCount (addedLines entries lines) = 0 ∨
      separatorCount (addedLines entries lines) = 1 ∧ separatorCount lines = 0 := by
  have hsettings : separatorCount (settingLines (absentFrom lines entries)) = 0 := by
    rw [separatorCount, List.countP_eq_zero]
    intro line hline
    obtain ⟨pair, hpair, rfl⟩ := List.mem_map.mp hline
    rw [isSeparator_settingLine (hkeys.of_mem (mem_absentFrom.mp hpair).1)]
    exact Bool.false_ne_true
  unfold addedLines
  split
  · exact .inl rfl
  rw [separatorCount, List.countP_append, ← separatorCount, ← separatorCount, hsettings, dividerBelow]
  split
  · exact .inl rfl
  · rename_i hnone
    have hnil : isSeparator [] = false := isSeparator_eq_false_of_isBlankLine (isBlankLine_of_isEmpty rfl)
    refine .inr ⟨by simp [separatorCount, separatorLines, isSeparator_separator, hnil], ?_⟩
    rw [Bool.or_eq_true, not_or, List.any_eq_true, not_exists] at hnone
    rw [separatorCount, ← countP_keptLines fun _ => isSeparator_eq_false_of_isBlankLine,
      List.countP_eq_zero]
    exact fun line hline hseparator => hnone.2 line ⟨hline, hseparator⟩

/-- **The separator after an edit.** It is added only where there is none. -/
theorem separatorCount_setEntries_le (hentries : IsReadBack entries) (content : Option (List UInt8)) :
    separatorCount (linesOf (some (setEntries entries content))) ≤
      max 1 (separatorCount (linesOf content)) := by
  have hcount := countP_linesOf_setEntries hentries
    (fun _ => isSeparator_updateLine hentries.keys) (fun _ => isSeparator_eq_false_of_isBlankLine) content
  rw [← separatorCount, ← separatorCount, ← separatorCount] at hcount
  have hadded : separatorCount (addedLines entries (linesOf content)) = 0 ∨ _ :=
    separatorCount_addedLines hentries.keys
  omega

/-! ### Runs -/

def writtenKeys (batches : List Entries) : List (List Glyph) :=
  batches.flatMap fun batch => batch.keys.map glyphs

def writtenEntries (batches : List Entries) : Entries := batches.foldl OrderedMap.merge ∅

/-- What holds of the bytes of a file when `batches` were written to it, one after another. -/
structure IsKeptByRun (batches : List Entries) (content : Option (List UInt8))
    (bytes : List UInt8) : Prop where
  keyCount_eq : ∀ key, keyCount key (linesOf (some bytes)) =
    if keyCount key (linesOf content) = 0 ∧ key ∈ writtenKeys batches then 1
    else keyCount key (linesOf content)
  separatorCount_le : separatorCount (linesOf (some bytes)) ≤ max 1 (separatorCount (linesOf content))
  ended : ∃ body, bytes = body ++ [Byte.lf] ∧ body.getLast? ≠ some Byte.lf
  /-- The lines up to the last that was not blank have stayed in place. If anything was added, then
  settings below a separator, which may have been added itself with an empty line above it. -/
  divided : (∃ line ∈ linesOf content, isBlankLine line = false) →
    ∃ front tail, linesOf (some bytes) = front ++ tail ∧
      List.Forall₂ (LineWritten (writtenEntries batches)) (keptLines (linesOf content)) front ∧
        ((∀ line ∈ tail, isBlankLine line = true) ∨
          ∃ divider, (divider = [] ∨ divider = separatorLines) ∧
            (∃ line ∈ front ++ divider, isSeparator line = true) ∧
              tail = divider ++
                settingLines (absentFrom (linesOf content) (writtenEntries batches)) ++ [[]])

theorem keyCount_contentAfter (hbatches : ∀ batch ∈ batches, IsReadBack batch) :
    keyCount key (linesOf (contentAfter batches content)) =
      if keyCount key (linesOf content) = 0 ∧ key ∈ writtenKeys batches then 1
      else keyCount key (linesOf content) := by
  induction batches generalizing content with
  | nil => simp [contentAfter, writtenKeys]
  | cons batch rest ih =>
    have hbatch := hbatches batch List.mem_cons_self
    have hstep : keyCount key (linesOf (some (setEntries batch content))) = _ :=
      keyCount_setEntries hbatch content
    have hrest : keyCount key (linesOf (contentAfter rest (some (setEntries batch content)))) = _ :=
      ih fun other hother => hbatches other (List.mem_cons_of_mem batch hother)
    have hkeys : key ∈ writtenKeys (batch :: rest) ↔
        key ∈ batch.keys.map glyphs ∨ key ∈ writtenKeys rest := List.mem_append
    rw [contentAfter, List.foldl_cons, ← contentAfter, hrest, hstep]
    by_cases hnone : keyCount key (linesOf content) = 0
    · by_cases hkey : key ∈ batch.keys.map glyphs
      · simp [hnone, hkeys, hkey]
      · simp [hnone, hkeys, hkey]
    · simp [hnone]

theorem separatorCount_contentAfter_le (hbatches : ∀ batch ∈ batches, IsReadBack batch) :
    separatorCount (linesOf (contentAfter batches content)) ≤
      max 1 (separatorCount (linesOf content)) := by
  induction batches generalizing content with
  | nil => exact le_max_right _ _
  | cons batch rest ih =>
    have hbatch := hbatches batch List.mem_cons_self
    rw [contentAfter, List.foldl_cons, ← contentAfter]
    calc separatorCount (linesOf (contentAfter rest (some (setEntries batch content))))
        ≤ max 1 (separatorCount (linesOf (some (setEntries batch content)))) :=
          ih fun other hother => hbatches other (List.mem_cons_of_mem batch hother)
      _ ≤ max 1 (max 1 (separatorCount (linesOf content))) :=
          max_le_max_left 1 (separatorCount_setEntries_le hbatch content)
      _ = max 1 (separatorCount (linesOf content)) := max_eq_right (le_max_left _ _)

theorem isReadBack_writtenEntries (hbatches : ∀ batch ∈ batches, IsReadBack batch) :
    IsReadBack (writtenEntries batches) := by
  have hempty : IsReadBack ∅ := by decide
  exact hempty.foldl_merge hbatches

theorem empty_merge (entries : Entries) : (∅ : Entries).merge entries = entries := by
  apply OrderedMap.ext
  rw [OrderedMap.toList_merge]
  simp [OrderedMap.keys]

theorem contentAfter_eq_setEntries (hbatches : ∀ batch ∈ batches, IsReadBack batch)
    (hne : batches ≠ []) (hroom : ∃ line ∈ linesOf content, isBlankLine line = false) :
    contentAfter batches content = some (setEntries (writtenEntries batches) content) := by
  obtain ⟨first, rest, rfl⟩ := List.exists_cons_of_ne_nil hne
  rw [contentAfter_cons (hbatches first List.mem_cons_self)
    (fun batch hbatch => hbatches batch (List.mem_cons_of_mem first hbatch)) (.inl hroom),
    writtenEntries, List.foldl_cons, empty_merge]

theorem linesOf_setEntries_eq_splitAtEach (hentries : IsReadBack entries) (content : Option (List UInt8)) :
    linesOf (some (setEntries entries content)) =
      splitAtEach (· == Byte.lf) (setEntries entries content) := by
  have hlines : ∀ line ∈ editedLines entries (linesOf content), IsFileLine line :=
    isFileLine_of_mem_editedLines hentries.keys hentries.values fun _ => isFileLine_of_mem_linesOf
  rw [linesOf_setEntries hentries.keys hentries.values, setEntries_eq,
    splitAtEach_joinByteLines fun line hline => (hlines line hline).1]

theorem exists_isSeparator_of_lineWritten {kept front : List (List UInt8)}
    (hfront : List.Forall₂ (LineWritten entries) kept front)
    (hkept : ∃ line ∈ kept, isSeparator line = true) : ∃ line ∈ front, isSeparator line = true := by
  induction hfront with
  | nil => exact hkept
  | @cons line line' kept front hline _ ih =>
    obtain ⟨divider, hdivider, hseparator⟩ := hkept
    rcases List.mem_cons.mp hdivider with rfl | hdivider
    · cases hline with
      | same => exact ⟨_, List.mem_cons_self, hseparator⟩
      | set hkey =>
        rw [keyOf?_of_isSeparator hseparator] at hkey
        exact absurd hkey.symm (Option.some_ne_none _)
    · obtain ⟨other, hother, hseparator⟩ := ih ⟨divider, hdivider, hseparator⟩
      exact ⟨other, List.mem_cons_of_mem line' hother, hseparator⟩

/-- What an edit adds to a file that is not blank stands below a separator. -/
theorem exists_divided_setEntries (hentries : IsReadBack entries)
    (hroom : ∃ line ∈ linesOf content, isBlankLine line = false) :
    ∃ front tail, linesOf (some (setEntries entries content)) = front ++ tail ∧
      List.Forall₂ (LineWritten entries) (keptLines (linesOf content)) front ∧
        ((∀ line ∈ tail, isBlankLine line = true) ∨
          ∃ divider, (divider = [] ∨ divider = separatorLines) ∧
            (∃ line ∈ front ++ divider, isSeparator line = true) ∧
              tail = divider ++ settingLines (absentFrom (linesOf content) entries) ++ [[]]) := by
  obtain ⟨line, hline, hblank⟩ := hroom
  have hkept : keptLines (linesOf content) ≠ [] := by
    intro hnil
    rw [keptLines_eq_nil_iff.mp hnil line hline] at hblank
    exact Bool.noConfusion hblank
  cases content with
  | none => simp [linesOf] at hline
  | some bytes =>
    obtain ⟨front, tail, hsplit, hfront, htail⟩ := exists_lines_setEntries hentries.keys bytes
    have hlines : linesOf (some (setEntries entries (some bytes))) = front ++ (tail ++ [[]]) := by
      rw [linesOf_setEntries_eq_splitAtEach hentries, hsplit, List.append_assoc]
    refine ⟨front, tail ++ [[]], hlines, hfront, ?_⟩
    cases htail with
    | blank _ _ htail =>
      refine .inl fun line hline => ?_
      rcases List.mem_append.mp hline with hline | hline
      · exact htail line hline
      · rw [List.mem_singleton.mp hline]
        exact isBlankLine_of_isEmpty rfl
    | underOwn =>
      refine .inr ⟨separatorLines, .inr rfl, ?_, rfl⟩
      exact ⟨_, List.mem_append_right _ (by simp [separatorLines]), isSeparator_separator⟩
    | plain _ hseparator =>
      obtain ⟨line, hline, hseparator⟩ :=
        exists_isSeparator_of_lineWritten hfront (hseparator.resolve_left hkept)
      exact .inr ⟨[], .inl rfl, ⟨line, List.mem_append_left _ hline, hseparator⟩, rfl⟩

/-- **Invariants of a run.** -/
theorem isKeptByRun_contentAfter {bytes : List UInt8} (hbatches : ∀ batch ∈ batches, IsReadBack batch)
    (hne : batches ≠ []) (hbytes : contentAfter batches content = some bytes) :
    IsKeptByRun batches content bytes where
  keyCount_eq key := hbytes ▸ keyCount_contentAfter hbatches
  separatorCount_le := hbytes ▸ separatorCount_contentAfter_le hbatches
  ended := by
    obtain ⟨front, last, rfl⟩ := List.eq_nil_or_concat batches |>.resolve_left hne
    rw [contentAfter, List.concat_eq_append, List.foldl_append] at hbytes
    rw [← Option.some.inj hbytes]
    exact exists_joinByteLines _
  divided hroom := by
    rw [contentAfter_eq_setEntries hbatches hne hroom] at hbytes
    rw [← hbytes]
    exact exists_divided_setEntries (isReadBack_writtenEntries hbatches) hroom

end EnvFill.EnvFile

namespace EnvFill.Project

open Storage EnvFile

variable {disk after : Disk} {path : Pathname} {place : Location} {content : Option (List UInt8)}
  {batches : List Entries} {counts : List Nat}

/-- **Writes keep the file in order.** After each write of a run, the file keeps the invariants of the
writes so far. -/
theorem writes_keep_invariants (htarget : IsTarget disk path place content)
    (hbatches : ∀ batch ∈ batches, IsReadBack batch)
    (hrun : Succeeds (batches.mapM (writeSettings path)) disk counts after) {front back : List Entries}
    (hsplit : batches = front ++ back) (hfront : front ≠ []) :
    ∃ middle bytes, Succeeds (front.mapM (writeSettings path)) disk (front.map OrderedMap.size) middle ∧
      middle.top.get? place = some (.file bytes) ∧ IsKeptByRun front content bytes := by
  subst hsplit
  obtain ⟨first, middle, -, hfirst, -, -⟩ := succeeds_mapM_append hrun
  obtain ⟨rfl, hmiddle, hput⟩ := htarget.writeAll_eq hfirst
  obtain ⟨bytes, hbytes, -⟩ := hput hfront
  refine ⟨middle, bytes, hfirst, ?_, ?_⟩
  · rw [hmiddle.content_eq, hbytes]
    rfl
  · exact isKeptByRun_contentAfter (fun batch hbatch => hbatches batch (List.mem_append_left _ hbatch))
      hfront hbytes

/-- A key is set twice and another is added in between. -/
theorem writes_keep_invariants_of_update_and_addition :
    ∃ middle bytes,
      Succeeds ([OrderedMap.ofList [("A", "2"), ("B", "x y")], OrderedMap.ofList [("A", "3")]].mapM
          (writeSettings (.ofRoot [".env"]))) sampleDisk [2, 1] middle ∧
        middle.top.get? [".env"] = some (.file bytes) ∧
          IsKeptByRun [OrderedMap.ofList [("A", "2"), ("B", "x y")], OrderedMap.ofList [("A", "3")]]
            (some (Text.Utf8.encodeText "A=1\n".toList)) bytes := by
  have hrun :
      Succeeds ([OrderedMap.ofList [("A", "2"), ("B", "x y")], OrderedMap.ofList [("A", "3")]].mapM
          (writeSettings (.ofRoot [".env"]))) sampleDisk [2, 1]
        (outcome ([OrderedMap.ofList [("A", "2"), ("B", "x y")], OrderedMap.ofList [("A", "3")]].mapM
          (writeSettings (.ofRoot [".env"]))) sampleDisk).2 :=
    Prod.ext (by cbv) rfl
  exact writes_keep_invariants isTarget_sampleDisk (by decide) hrun (List.append_nil _).symm
    (List.cons_ne_nil _ _)

end EnvFill.Project
