import EnvFill.Proofs.SettingsFile

/-!
# Lines that a write leaves alone

Line by line, byte by byte: what a write makes of a file. Values may hold anything here, since
only line feeds separate the lines that are looked at.
-/

namespace EnvFill.EnvFile

open Text

variable {entries : Entries} {bytes : List UInt8} {lines : List (List UInt8)}

inductive LineWritten (entries : Entries) : List UInt8 → List UInt8 → Prop where
  | same {line : List UInt8} (hother : ∀ key ∈ entries.keys, keyOf? line ≠ some (glyphs key)) :
      LineWritten entries line line
  | set {line : List UInt8} {key value : String} (hkey : keyOf? line = some (glyphs key))
      (hvalue : entries.get? key = some value) : LineWritten entries line (settingLine key value)

/-- The lines that a write of `entries` puts below those up to the last that is not blank. -/
inductive TailWritten (entries : Entries) (lines : List (List UInt8)) : List (List UInt8) → Prop where
  | blank {tail : List (List UInt8)} (hpresent : absentFrom lines entries = [])
      (htail : tail <+: lines.drop (keptLines lines).length)
      (hblank : ∀ line ∈ tail, isBlankLine line = true) : TailWritten entries lines tail
  | underOwn (habsent : absentFrom lines entries ≠ []) (hkept : keptLines lines ≠ [])
      (hseparator : ∀ line ∈ keptLines lines, isSeparator line = false) :
      TailWritten entries lines
        ([] :: Utf8.encodeText separator.toList :: settingLines (absentFrom lines entries))
  | plain (habsent : absentFrom lines entries ≠ [])
      (hkept : keptLines lines = [] ∨ ∃ line ∈ keptLines lines, isSeparator line = true) :
      TailWritten entries lines (settingLines (absentFrom lines entries))

theorem lineWritten_updateLine (entries : Entries) (line : List UInt8) :
    LineWritten entries line (updateLine entries line) := by
  rcases updateLine_cases entries line with ⟨key, value, hpair, hkey, hline⟩ | ⟨hother, hline⟩
  · rw [hline]
    exact .set hkey (OrderedMap.get?_eq_some hpair)
  · rw [hline]
    exact .same hother

theorem forall₂_lineWritten (entries : Entries) (lines : List (List UInt8)) :
    List.Forall₂ (LineWritten entries) lines (lines.map (updateLine entries)) := by
  induction lines with
  | nil => exact .nil
  | cons line lines ih => exact .cons (lineWritten_updateLine entries line) ih

/-- A line feed ends the file, and only one. -/
theorem exists_joinByteLines (lines : List (List UInt8)) :
    ∃ body, joinByteLines lines = body ++ [Byte.lf] ∧ body.getLast? ≠ some Byte.lf := by
  refine ⟨_, rfl, fun hlast => ?_⟩
  have hne : dropEndWhile (· == Byte.lf) ([Byte.lf].intercalate lines) ≠ [] := by
    intro hnil
    rw [hnil] at hlast
    exact Option.some_ne_none _ hlast.symm
  have hnot := List.rdropWhile_last_not (· == Byte.lf) ([Byte.lf].intercalate lines) hne
  rw [List.getLast?_eq_some_getLast hne, Option.some.injEq] at hlast
  exact hnot (beq_iff_eq.mpr hlast)

theorem trimEmpty_map_keptLines (hkeys : HasWritableKeys entries) (lines : List (List UInt8)) :
    trimEmpty ((keptLines lines).map (updateLine entries)) =
      (keptLines lines).map (updateLine entries) := by
  have hkept : trimEmpty (keptLines lines) = keptLines lines := by
    refine List.rdropWhile_eq_self_iff.mpr fun hne hempty => ?_
    exact List.rdropWhile_last_not isBlankLine lines hne (isBlankLine_of_isEmpty hempty)
  rw [trimEmpty, dropEndWhile_map (fun _ => isEmpty_updateLine hkeys), ← trimEmpty, hkept]

/-- Without new settings, empty lines at the end may go and no other line comes or goes. -/
theorem exists_writtenLines_eq (hkeys : HasWritableKeys entries) (hne : lines ≠ []) :
    ∃ tail, writtenLines (lines.map (updateLine entries)) =
        (keptLines lines).map (updateLine entries) ++ tail ∧
      tail <+: lines.drop (keptLines lines).length ∧
        ∀ line ∈ tail, isBlankLine line = true := by
  obtain ⟨blank, hlines, hblank⟩ := exists_append_dropEndWhile isBlankLine lines
  rw [← keptLines] at hlines
  have hdrop : lines.drop (keptLines lines).length = blank :=
    (congrArg (List.drop (keptLines lines).length) hlines).trans List.drop_left
  have hupdated : blank.map (updateLine entries) = blank :=
    map_eq_self fun line hline =>
      updateLine_of_keyless (keyOf?_of_isBlankLine (hblank line hline))
  have htrim : trimEmpty (lines.map (updateLine entries)) =
      (keptLines lines).map (updateLine entries) ++ trimEmpty blank := by
    conv_lhs => rw [hlines, List.map_append, hupdated]
    exact dropEndWhile_append_of_eq (trimEmpty_map_keptLines hkeys lines) blank
  rw [hdrop, writtenLines, htrim]
  by_cases hnil : (keptLines lines).map (updateLine entries) ++ trimEmpty blank = []
  · -- Nothing but empty lines: one of them stays.
    obtain ⟨hkept, hempty⟩ := List.append_eq_nil_iff.mp hnil
    rw [List.map_eq_nil_iff.mp hkept, List.nil_append] at hlines
    obtain ⟨line, rest, hcons⟩ := List.exists_cons_of_ne_nil hne
    rw [hlines] at hcons
    have hline : line = [] :=
      List.isEmpty_iff.mp (dropEndWhile_eq_nil_iff.mp hempty line (hcons ▸ List.mem_cons_self))
    rw [if_pos hnil, hkept, hcons, hline]
    refine ⟨[[]], rfl, ⟨rest, rfl⟩, ?_⟩
    intro other hother
    rw [List.mem_singleton.mp hother]
    exact isBlankLine_of_isEmpty rfl
  · rw [if_neg hnil]
    have hinit : trimEmpty blank <+: blank := List.rdropWhile_prefix List.isEmpty blank
    exact ⟨trimEmpty blank, rfl, hinit, fun line hline => hblank line (hinit.subset hline)⟩

theorem writtenLines_append_settingLines {pairs : List (String × String)} (hpairs : pairs ≠ [])
    (hkeys : ∀ pair ∈ pairs, IsWritableKey pair.1) (front : List (List UInt8)) :
    writtenLines (front ++ settingLines pairs) = front ++ settingLines pairs := by
  have hne : front ++ settingLines pairs ≠ [] := by
    simp [settingLines, hpairs]
  have htrim : trimEmpty (front ++ settingLines pairs) = front ++ settingLines pairs := by
    have hkept := keptLines_append_settingLines hpairs hkeys front
    refine List.rdropWhile_eq_self_iff.mpr fun hne hempty => ?_
    exact List.rdropWhile_eq_self_iff.mp hkept hne (isBlankLine_of_isEmpty hempty)
  rw [writtenLines, htrim, if_neg hne]

/-- **What a write makes of the lines.** -/
theorem exists_lines_setEntries (hkeys : HasWritableKeys entries) (bytes : List UInt8) :
    ∃ front tail,
      splitAtEach (· == Byte.lf) (setEntries entries (some bytes)) = front ++ tail ++ [[]] ∧
        List.Forall₂ (LineWritten entries) (keptLines (byteLines bytes)) front ∧
          TailWritten entries (byteLines bytes) tail := by
  have hlines : ∀ line ∈ editedLines entries (byteLines bytes), Byte.lf ∉ line :=
    lf_not_mem_editedLines hkeys fun line hline => (isFileLine_of_mem_byteLines hline).1
  have hsplit : splitAtEach (· == Byte.lf) (setEntries entries (some bytes)) =
      writtenLines (editedLines entries (byteLines bytes)) ++ [[]] :=
    splitAtEach_joinByteLines hlines
  by_cases habsent : absentFrom (byteLines bytes) entries = []
  · obtain ⟨tail, hwritten, htail, hblank⟩ :=
      exists_writtenLines_eq hkeys (splitAtEach_ne_nil (· == Byte.lf) (unifyLineEnds bytes))
    refine ⟨(keptLines (byteLines bytes)).map (updateLine entries), tail, ?_,
      forall₂_lineWritten entries _, .blank habsent htail hblank⟩
    rw [hsplit, editedLines_of_absentFrom_eq_nil habsent]
    exact congrArg (· ++ [[]]) hwritten
  · have hpairs : ∀ pair ∈ absentFrom (byteLines bytes) entries, IsWritableKey pair.1 :=
      fun pair hpair => hkeys.of_mem (mem_absentFrom.mp hpair).1
    refine ⟨(keptLines (byteLines bytes)).map (updateLine entries),
      dividerBelow (keptLines (byteLines bytes)) ++
        settingLines (absentFrom (byteLines bytes) entries), ?_, forall₂_lineWritten entries _, ?_⟩
    · rw [hsplit, editedLines_of_absentFrom_ne_nil hkeys habsent,
        writtenLines_append_settingLines habsent hpairs, ← List.append_assoc]
    · unfold dividerBelow
      split
      · rename_i hplain
        refine .plain habsent ?_
        simpa using hplain
      · rename_i hown
        simp only [Bool.or_eq_true, List.isEmpty_iff, List.any_eq_true, not_or, not_exists,
          not_and, Bool.not_eq_true] at hown
        exact .underOwn habsent hown.1 hown.2

end EnvFill.EnvFile

namespace EnvFill.Project

open Storage EnvFile Text

variable {disk after : Disk} {path : Pathname} {place : Location} {bytes : List UInt8}
  {entries : Entries} {count : Nat}

/-- **A write touches only its own lines.** Up to its last line that is not blank, the file keeps
each line byte for byte or has it replaced by the setting of its key; new settings follow, under the
separator where it is due, or else some of the blank lines that were there. One line feed ends the
file, and no other place of the disk changes. -/
theorem writeSettings_touches_own_lines (htarget : IsTarget disk path place (some bytes))
    (hkeys : HasWritableKeys entries)
    (hwrite : Succeeds (writeSettings path entries) disk count after) :
    ∃ new, after = disk.put place (.file new) ∧ after.top.get? place = some (.file new) ∧
      (∃ front tail, splitAtEach (· == Byte.lf) new = front ++ tail ++ [[]] ∧
        List.Forall₂ (LineWritten entries) (keptLines (byteLines bytes)) front ∧
          TailWritten entries (byteLines bytes) tail) ∧
      ∃ body, new = body ++ [Byte.lf] ∧ body.getLast? ≠ some Byte.lf := by
  obtain ⟨hwritable, -, rfl⟩ := htarget.writeSettings_eq hwrite
  exact ⟨setEntries entries (some bytes), rfl, Node.get?_put_self hwritable.room,
    exists_lines_setEntries hkeys bytes, exists_joinByteLines _⟩

/-- A key is added below the line of another. -/
theorem writeSettings_touches_own_lines_of_addition :
    ∃ new,
      (outcome (writeSettings (.ofRoot [".env"]) (OrderedMap.ofList [("B", "2")])) sampleDisk).2 =
          sampleDisk.put [".env"] (.file new) ∧
        ∃ front tail, splitAtEach (· == Byte.lf) new = front ++ tail ++ [[]] ∧
          List.Forall₂ (LineWritten (OrderedMap.ofList [("B", "2")]))
            (keptLines (byteLines (Utf8.encodeText "A=1\n".toList))) front ∧
          TailWritten (OrderedMap.ofList [("B", "2")])
            (byteLines (Utf8.encodeText "A=1\n".toList)) tail := by
  have hrun :
      Succeeds (writeSettings (.ofRoot [".env"]) (OrderedMap.ofList [("B", "2")])) sampleDisk 1
        (outcome (writeSettings (.ofRoot [".env"]) (OrderedMap.ofList [("B", "2")])) sampleDisk).2 :=
    Prod.ext (by cbv) rfl
  obtain ⟨new, hnew, -, hlines, -⟩ :=
    writeSettings_touches_own_lines isTarget_sampleDisk (by decide) hrun
  exact ⟨new, hnew, hlines⟩

end EnvFill.Project
