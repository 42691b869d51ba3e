import EnvFill.Proofs.FileRuns

/-!
# Reading a setting after writing it

What a key is read as depends on the last line that is read with it. A write brings that line up to
date or adds one below all others. There are two ways in which this can fail: a carriage return in
the value ends its line when the file is read, and a line with stray bytes in its key is read as a
line of the key, but not replaced as one.
-/

namespace EnvFill.OrderedMap

variable {κ ν : Type} [DecidableEq κ]

theorem get?_insert (map : OrderedMap κ ν) (key other : κ) (value : ν) :
    (map.insert key value).get? other = if other = key then some value else map.get? other := by
  have hinsert : map.insert key value = map.merge (ofList [(key, value)]) := rfl
  have hsingle : (ofList [(key, value)]).get? other = if other = key then some value else none := by
    by_cases hkey : other = key
    · subst hkey
      have hpair : (other, value) ∈ (ofList [(other, value)]).toList := List.mem_cons_self
      rw [if_pos rfl, get?_eq_some hpair]
    · rw [if_neg hkey]
      apply get?_eq_none
      rw [mem_keys_ofList]
      simpa using hkey
  rw [hinsert, get?_merge, hsingle]
  split <;> rfl

/-- Of pairs with the same key, the last is taken over. -/
theorem get?_insertMany_append_cons (map : OrderedMap κ ν) (front : List (κ × ν)) (key : κ) (value : ν)
    {back : List (κ × ν)} (hback : key ∉ back.map Prod.fst) :
    (map.insertMany (front ++ (key, value) :: back)).get? key = some value := by
  rw [insertMany_append, insertMany_cons]
  generalize hstart : (map.insertMany front).insert key value = start
  have hvalue : start.get? key = some value := by rw [← hstart, get?_insert, if_pos rfl]
  clear hstart
  induction back generalizing start with
  | nil => exact hvalue
  | cons pair back ih =>
    rw [List.map_cons, List.mem_cons, not_or] at hback
    refine ih hback.2 _ ?_
    rw [get?_insert, if_neg hback.1, hvalue]

end EnvFill.OrderedMap

namespace EnvFill.EnvFile

open Text

variable {content : Option (List UInt8)} {lines : List (List UInt8)} {key value : String}

/-- A line that is read as setting the key but not replaced by an edit: its key has bytes outside any
character. -/
def IsHidden (key : String) (line : List UInt8) : Prop :=
  (settingOf? line).map Prod.fst = some key ∧ keyOf? line ≠ some (glyphs key)

/-- No line that edits do not see as one of the key stands below all lines of the key. Where the key
has no line, hidden lines may stand anywhere. -/
def HasVisibleEnd (key : String) (lines : List (List UInt8)) : Prop :=
  ∀ above line below, lines = above ++ line :: below → IsHidden key line →
    glyphs key ∈ lines.filterMap keyOf? → glyphs key ∈ below.filterMap keyOf?

/-- Where keys are text, no line is hidden. -/
theorem HavePlainKeys.hasVisibleEnd (hplain : HavePlainKeys lines) (key : String) :
    HasVisibleEnd key lines := by
  intro above line below hlines hhidden
  obtain ⟨hread, hkey⟩ := hhidden
  obtain ⟨pair, hpair, rfl⟩ := Option.map_eq_some_iff.mp hread
  have hline : HasPlainKey line := hplain line (by simp [hlines])
  rw [keyOf?_eq_of_plainKey hline, hpair] at hkey
  exact absurd rfl hkey

theorem exists_last_line (hkey : glyphs key ∈ lines.filterMap keyOf?) :
    ∃ above line below, lines = above ++ line :: below ∧ keyOf? line = some (glyphs key) ∧
      glyphs key ∉ below.filterMap keyOf? := by
  induction lines with
  | nil => simp at hkey
  | cons line lines ih =>
    by_cases hbelow : glyphs key ∈ lines.filterMap keyOf?
    · obtain ⟨above, last, below, rfl, hlast, hnone⟩ := ih hbelow
      exact ⟨line :: above, last, below, rfl, hlast, hnone⟩
    · refine ⟨[], line, lines, rfl, ?_, hbelow⟩
      obtain ⟨other, hother, hline⟩ := List.mem_filterMap.mp hkey
      rcases List.mem_cons.mp hother with rfl | hother
      · exact hline
      · exact absurd (List.mem_filterMap.mpr ⟨other, hother, hline⟩) hbelow

/-- A hidden line below the last line of the key would have a line of the key below it. -/
theorem not_read_below_last {above below : List (List UInt8)} {line : List UInt8}
    (hvisible : HasVisibleEnd key (above ++ line :: below)) (hline : keyOf? line = some (glyphs key))
    (hbelow : glyphs key ∉ below.filterMap keyOf?) :
    ∀ other ∈ below, (settingOf? other).map Prod.fst ≠ some key := by
  intro other hother hread
  have hkeyless : keyOf? other ≠ some (glyphs key) :=
    fun heq => hbelow (List.mem_filterMap.mpr ⟨other, hother, heq⟩)
  obtain ⟨between, under, rfl⟩ := List.append_of_mem hother
  have hpresent : glyphs key ∈ (above ++ line :: (between ++ other :: under)).filterMap keyOf? :=
    List.mem_filterMap.mpr ⟨line, by simp, hline⟩
  have hunder := hvisible (above ++ line :: between) other under (by simp) ⟨hread, hkeyless⟩ hpresent
  obtain ⟨own, hown, hownKey⟩ := List.mem_filterMap.mp hunder
  have hmem : own ∈ between ++ other :: under :=
    List.mem_append_right between (List.mem_cons_of_mem other hown)
  exact hbelow (List.mem_filterMap.mpr ⟨own, hmem, hownKey⟩)

theorem absentFrom_singleton (lines : List (List UInt8)) (key value : String) :
    absentFrom lines (OrderedMap.ofList [(key, value)]) =
      if glyphs key ∈ lines.filterMap keyOf? then [] else [(key, value)] := by
  have hlist : (OrderedMap.ofList [(key, value)]).toList = [(key, value)] := rfl
  rw [absentFrom, hlist]
  split <;> simp_all

theorem get?_of_last_setting {above below : List (List UInt8)} {line : List UInt8}
    (hlines : lines = above ++ line :: below) (hline : settingOf? line = some (key, value))
    (hbelow : ∀ other ∈ below, (settingOf? other).map Prod.fst ≠ some key) :
    (OrderedMap.ofList (lines.filterMap settingOf?)).get? key = some value := by
  rw [hlines, List.filterMap_append, List.filterMap_cons_some hline]
  refine OrderedMap.get?_insertMany_append_cons ∅ _ key value ?_
  rw [List.mem_map]
  rintro ⟨pair, hpair, rfl⟩
  obtain ⟨other, hother, hsetting⟩ := List.mem_filterMap.mp hpair
  exact hbelow other hother (by rw [hsetting]; rfl)

theorem chars_of_isPlainKey {text : List Char} (hplain : isPlainKey text = true) :
    text ≠ [] ∧ ∀ c ∈ text, (c.isAlphanum || c == '_') = true := by
  cases text with
  | nil => exact absurd hplain Bool.false_ne_true
  | cons first rest =>
    rw [isPlainKey, Bool.and_eq_true, List.all_eq_true] at hplain
    obtain ⟨hfirst, hrest⟩ := hplain
    refine ⟨List.cons_ne_nil first rest, fun c hc => ?_⟩
    rcases List.mem_cons.mp hc with rfl | hc
    · rw [Char.isAlphanum, Bool.or_assoc, Bool.or_left_comm, hfirst, Bool.or_true]
    · exact hrest c hc

variable (hkey : IsWritableKey key)

include hkey

theorem hasWritableKeys_singleton : HasWritableKeys (OrderedMap.ofList [(key, value)]) := by
  intro other hother
  rwa [List.mem_singleton.mp hother]

/-- The last line that is read as one of the key is the one that was written. -/
theorem exists_written_line (hvisible : HasVisibleEnd key lines) :
    ∃ above below, editedLines (OrderedMap.ofList [(key, value)]) lines =
        above ++ settingLine key value :: below ∧
      ∀ other ∈ below, (settingOf? other).map Prod.fst ≠ some key := by
  have hkeys : HasWritableKeys (OrderedMap.ofList [(key, value)]) := hasWritableKeys_singleton hkey
  by_cases hpresent : glyphs key ∈ lines.filterMap keyOf?
  · obtain ⟨above, line, below, rfl, hline, hbelow⟩ := exists_last_line hpresent
    have habsent := (absentFrom_singleton _ key value).trans (if_pos hpresent)
    have hpair : (key, value) ∈ (OrderedMap.ofList [(key, value)]).toList := List.mem_cons_self
    have hupdated : updateLine (OrderedMap.ofList [(key, value)]) line = settingLine key value :=
      updateLine_of_key hline (OrderedMap.get?_eq_some hpair)
    refine ⟨above.map (updateLine (OrderedMap.ofList [(key, value)])),
      below.map (updateLine (OrderedMap.ofList [(key, value)])), ?_, ?_⟩
    · rw [editedLines_of_absentFrom_eq_nil habsent, List.map_append, List.map_cons, hupdated]
    · intro other hother hread
      obtain ⟨old, hold, rfl⟩ := List.mem_map.mp hother
      have hkeyless : keyOf? old ≠ some (glyphs key) :=
        fun heq => hbelow (List.mem_filterMap.mpr ⟨old, hold, heq⟩)
      have hsame : updateLine (OrderedMap.ofList [(key, value)]) old = old :=
        updateLine_of_not_key fun name hname => by rwa [List.mem_singleton.mp hname]
      rw [hsame] at hread
      exact not_read_below_last hvisible hline hbelow old hold hread
  · have habsent := (absentFrom_singleton _ key value).trans (if_neg hpresent)
    refine ⟨(keptLines lines).map (updateLine (OrderedMap.ofList [(key, value)])) ++
      dividerBelow (keptLines lines), [], ?_, by simp⟩
    rw [editedLines_of_absentFrom_ne_nil hkeys (by simp [habsent]), habsent]
    rfl

/-- **A written setting is read back.** -/
theorem get?_settingsOf_setEntries (hvalue : '\r' ∉ value.toList)
    (hvisible : HasVisibleEnd key (linesOf content)) :
    (settingsOf (some (setEntries (OrderedMap.ofList [(key, value)]) content))).get? key =
      some value := by
  have hvalues : HasFileValues (OrderedMap.ofList [(key, value)]) := by
    intro pair hpair
    rwa [List.mem_singleton.mp hpair]
  obtain ⟨above, below, hlines, hbelow⟩ :
      ∃ above below, editedLines (OrderedMap.ofList [(key, value)]) (linesOf content) =
          above ++ settingLine key value :: below ∧
        ∀ other ∈ below, (settingOf? other).map Prod.fst ≠ some key :=
    exists_written_line hkey hvisible
  rw [settingsOf_eq, linesOf_setEntries (hasWritableKeys_singleton hkey) hvalues,
    filterMap_writtenLines_append (settingOf?_of_equals_not_mem List.not_mem_nil)]
  exact get?_of_last_setting hlines (settingOf?_settingLine hkey value) hbelow

omit hkey in
theorem isWritableKey_of_isPlainKey (hplain : isPlainKey key.toList = true) : IsWritableKey key := by
  obtain ⟨hnil, hchars⟩ := chars_of_isPlainKey hplain
  refine .of_forall hnil fun c hc => ?_
  rcases Bool.or_eq_true_iff.mp (hchars c hc) with hc | hc
  · refine ⟨isBlank_eq_false_of_isAlphanum hc, ?_, ?_⟩
    · rintro rfl
      exact absurd hc (by decide)
    · rintro rfl
      exact absurd hc (by decide)
  · rw [beq_iff_eq.mp hc]
    decide

end EnvFill.EnvFile

namespace EnvFill.Project

open Storage EnvFile

variable {disk after : Disk} {path : Pathname} {place : Location} {content : Option (List UInt8)}
  {key value : String} {count : Nat}

/-- **What was written is read**, if the value has no carriage return, no hidden line of the key stands below the
others, and the path leads to the place it resolves to once there is a file. A path that leaves a missing
directory again, as in `new/../.env`, does not. -/
theorem readSettings_of_writeSettings (htarget : IsTarget disk path place content)
    (hreached : ∀ bytes, (disk.put place (.file bytes)).locate? path = .ok place)
    (hkey : isPlainKey key.toList = true) (hvalue : '\r' ∉ value.toList)
    (hvisible : HasVisibleEnd key (linesOf content))
    (hwrite : Succeeds (writeSettings path (OrderedMap.ofList [(key, value)])) disk count after) :
    ∃ entries, readSettings after path = .ok entries ∧ entries.get? key = some value := by
  obtain ⟨hwritable, -, rfl⟩ := htarget.writeSettings_eq hwrite
  have hbytes : (disk.put place
      (.file (setEntries (OrderedMap.ofList [(key, value)]) content))).bytes? path =
        .ok (some (setEntries (OrderedMap.ofList [(key, value)]) content)) := by
    rw [bytes?_of_locate (hreached _), (htarget.put hwritable _).content_eq]
    rfl
  exact ⟨_, readSettings_of_bytes hbytes,
    get?_settingsOf_setEntries (isWritableKey_of_isPlainKey hkey) hvalue hvisible⟩

/-- A value with blanks and quotes. -/
theorem readSettings_of_writeSettings_of_quotes :
    ∃ entries,
      readSettings (outcome (writeSettings (.ofRoot [".env"])
          (OrderedMap.ofList [("A", "say \"hi\"")])) sampleDisk).2 (.ofRoot [".env"]) = .ok entries ∧
        entries.get? "A" = some "say \"hi\"" := by
  have hwrite :
      Succeeds (writeSettings (.ofRoot [".env"]) (OrderedMap.ofList [("A", "say \"hi\"")])) sampleDisk 1
        (outcome (writeSettings (.ofRoot [".env"]) (OrderedMap.ofList [("A", "say \"hi\"")]))
          sampleDisk).2 :=
    Prod.ext (by cbv) rfl
  have hplain : HavePlainKeys (linesOf (some (Text.Utf8.encodeText "A=1\n".toList))) := by
    decide +kernel
  exact readSettings_of_writeSettings isTarget_sampleDisk (fun bytes => by cbv) (by decide) (by decide)
    (hplain.hasVisibleEnd "A") hwrite

/-- A disk with a file in which a stray byte follows the second key. -/
def strayDisk : Disk :=
  ⟨.dir [(".env", .file [0x41, 0x3D, 0x31, 0x0A, 0x41, 0xFF, 0x3D, 0x32, 0x0A])], []⟩

/-- A carriage return cuts a value off, and a hidden line takes precedence over a line above it. -/
theorem exists_written_not_read :
    (∃ after, Succeeds (writeSettings (.ofRoot [".env"]) (OrderedMap.ofList [("A", "x\ry")])) sampleDisk
        1 after ∧ readSettings after (.ofRoot [".env"]) = .ok (OrderedMap.ofList [("A", "\"x")]) ∧
          (OrderedMap.ofList [("A", "\"x")]).get? "A" ≠ some "x\ry") ∧
      ∃ after, Succeeds (writeSettings (.ofRoot [".env"]) (OrderedMap.ofList [("A", "3")])) strayDisk
        1 after ∧ readSettings after (.ofRoot [".env"]) = .ok (OrderedMap.ofList [("A", "2")]) ∧
          (OrderedMap.ofList [("A", "2")]).get? "A" ≠ some "3" := by
  refine ⟨⟨_, Prod.ext (by cbv) rfl, ?_, by decide⟩, _, Prod.ext (by cbv) rfl, ?_, by decide⟩
  · cbv
  · cbv

end EnvFill.Project
