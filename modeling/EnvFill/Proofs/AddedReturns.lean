import EnvFill.Proofs.ConsistentReports
import EnvFill.Proofs.PastedEntries
import EnvFill.Proofs.WriteFailures

/-!
# Texts with carriage returns added

A text whose lines end in a carriage return and a line feed is read like the one whose lines end in line
feeds alone: the same names are found in it, and the same settings. A file with such lines holds the same
bytes after a write.
-/

namespace EnvFill.Text

variable {text : List Char}

def withReturns (text : List Char) : List Char :=
  text.flatMap fun c => if c = '\n' then ['\r', '\n'] else [c]

theorem withReturns_cons {c : Char} (hc : c ≠ '\n') (text : List Char) :
    withReturns (c :: text) = c :: withReturns text := by
  rw [withReturns, List.flatMap_cons, if_neg hc, List.singleton_append, withReturns]

theorem sameLines_withReturns (text : List Char) : SameLines text (withReturns text) := by
  induction text with
  | nil => exact .nil
  | cons c text ih =>
    by_cases hc : c = '\n'
    · subst hc
      exact .crlf ih
    · rw [withReturns_cons hc]
      exact .cons hc ih

/-- In a file the returns are gone as soon as its line ends are unified. -/
theorem unifyLineEnds_withReturns (hcr : '\r' ∉ text) :
    unifyLineEnds (Utf8.encodeText (withReturns text)) = Utf8.encodeText text := by
  induction text with
  | nil => rfl
  | cons c text ih =>
    rw [List.mem_cons, not_or] at hcr
    by_cases hc : c = '\n'
    · subst hc
      exact (unifyLineEnds_crlf _).trans (congrArg (Byte.lf :: ·) (ih hcr.2))
    · have hfront : Byte.cr ∉ Utf8.encodeText [c] := by
        rw [Utf8.mem_encodeText_iff (by decide), List.mem_singleton]
        exact hcr.1
      have happend : ∀ rest, Utf8.encodeText (c :: rest) = Utf8.encodeText [c] ++ Utf8.encodeText rest :=
        fun rest => (List.flatMap_append : ([c] ++ rest).flatMap String.utf8EncodeChar = _)
      rw [withReturns_cons hc, happend, unifyLineEnds_append hfront, ih hcr.2, ← happend]

theorem byteLines_withReturns (hcr : '\r' ∉ text) :
    byteLines (Utf8.encodeText (withReturns text)) = byteLines (Utf8.encodeText text) := by
  have hplain : Byte.cr ∉ Utf8.encodeText text := by
    rwa [Utf8.mem_encodeText_iff (by decide)]
  rw [byteLines, byteLines, unifyLineEnds_withReturns hcr, unifyLineEnds_of_cr_not_mem hplain]

end EnvFill.Text

namespace EnvFill.Name

open Text

/-- The same names are found, however lines end. -/
theorem candidates_eq_of_sameLines {text text' : List Char} (hsame : SameLines text text') :
    candidates text' = candidates text := by
  refine Sorted.ofList_congr fun name => ?_
  simp only [List.mem_filter, List.mem_flatMap]
  refine and_congr_left fun _ => exists_congr fun rule => and_congr_right fun hrule => ?_
  exact ⟨mem_extract_of_sameLines_right hrule hsame, mem_extract_of_sameLines hrule hsame⟩

end EnvFill.Name

namespace EnvFill.EnvFile

open Text

variable {text text' : List Char}

theorem ofText_eq_of_sameLines (hsame : SameLines text text') :
    Entries.ofText (String.ofList text') = Entries.ofText (String.ofList text) := by
  rw [ofText_eq, ofText_eq, String.toList_ofList, String.toList_ofList,
    filterMap_eq_of_forall₂ textSetting?_append_cr hsame.forall₂_lines]

theorem ofPaste_eq_of_sameLines (hsame : SameLines text text') :
    Entries.ofPaste (String.ofList text') = Entries.ofPaste (String.ofList text) := by
  rw [Entries.ofPaste, Entries.ofPaste, String.toList_ofList, String.toList_ofList,
    ← filterMap_pastedSetting?_lines, ← filterMap_pastedSetting?_lines,
    filterMap_eq_of_forall₂ pastedSetting?_append_cr hsame.forall₂_lines]

theorem setEntries_withReturns (hcr : '\r' ∉ text) (entries : Entries) :
    setEntries entries (some (Utf8.encodeText (withReturns text))) =
      setEntries entries (some (Utf8.encodeText text)) := by
  rw [setEntries, setEntries, linesOf, linesOf, byteLines_withReturns hcr]

end EnvFill.EnvFile

namespace EnvFill.Project

open Text Storage EnvFile Name Node

variable {disk after : Disk} {path : Pathname} {place : Location} {content : Option (List UInt8)}
  {bytes : List UInt8} {entries : Entries} {count : Nat}

/-- **Settings are written** just where a file can be, whatever they are and whatever it holds. -/
theorem IsTarget.succeeds_writeSettings_iff (htarget : IsTarget disk path place content) :
    Succeeds (writeSettings path entries) disk count after ↔
      CanBeWritten disk place ∧ count = entries.size ∧
        after = disk.put place (.file (setEntries entries content)) := by
  have hwhole : ∀ bytes, Succeeds (writeWhole (.ofRoot place) bytes) disk () after ↔
      CanBeWritten disk place ∧ after = disk.put place (.file bytes) := fun bytes =>
    succeeds_writeWhole_iff.trans (succeeds_replaceFile_iff htarget.isName htarget.linkFree)
  constructor
  · intro hwrite
    obtain ⟨-, hcount, hafter⟩ := htarget.writeSettings_eq hwrite
    obtain ⟨_, -, hput, -⟩ := (Project.succeeds_writeSettings_iff htarget.resolve_eq).mp hwrite
    exact ⟨((hwhole _).mp hput).1, hcount, hafter⟩
  · rintro ⟨hcan, rfl, rfl⟩
    obtain ⟨folder, name, rfl, hshort, hfits⟩ := hcan.short
    have hshortAll : ∀ other ∈ folder ++ [name], isTooLong other = false :=
      List.forall_mem_append.mpr ⟨hshort, List.forall_mem_singleton.mpr hfits.isTooLong_eq⟩
    obtain ⟨node, hfind⟩ := exists_find_eq_ok htarget.isName htarget.linkFree hfits.text hshortAll
    have hnode := Disk.find_ofRoot htarget.isName htarget.linkFree hfind hfits.text
    have hread : contentAt disk (.ofRoot (folder ++ [name])) = .ok content := by
      rw [htarget.content_eq] at hnode
      rw [contentAt, hfind, hnode]
      cases content <;> rfl
    exact (Project.succeeds_writeSettings_iff htarget.resolve_eq).mpr
      ⟨content, hread, (hwhole _).mpr ⟨hcan, rfl⟩, rfl⟩

theorem IsTarget.canBeWritten_iff (htarget : IsTarget disk path place (some bytes)) :
    CanBeWritten disk place ↔ HasShortPath place := by
  refine ⟨CanBeWritten.short, fun hshort => ⟨hshort, hasRoom_of_get? htarget.content_eq, ?_⟩⟩
  rintro ⟨below, hdir⟩
  cases htarget.content_eq.symm.trans hdir

/-- Files that hold the same lines are the same after a write. -/
theorem IsTarget.succeeds_writeSettings_put_iff (htarget : IsTarget disk path place (some bytes))
    {other : List UInt8}
    (hsame : setEntries entries (some other) = setEntries entries (some bytes)) :
    Succeeds (writeSettings path entries) (disk.put place (.file other)) count after ↔
      Succeeds (writeSettings path entries) disk count after := by
  have hother := htarget.put_of_hasRoom (hasRoom_of_get? htarget.content_eq) other
  rw [hother.succeeds_writeSettings_iff, htarget.succeeds_writeSettings_iff, hother.canBeWritten_iff,
    htarget.canBeWritten_iff, Disk.put_put, hsame]

/-- **Carriage returns at the ends of lines change nothing.** The same names are found in the text, as
references and as keys, and the same settings, as those of a file and as pasted ones. A write to a file
that holds the text leaves the same disk. -/
theorem withReturns_changes_nothing (text : List Char) :
    candidates (withReturns text) = candidates text ∧
      variableKeys (lines (withReturns text)) = variableKeys (lines text) ∧
        Entries.ofText (String.ofList (withReturns text)) = Entries.ofText (String.ofList text) ∧
          Entries.ofPaste (String.ofList (withReturns text)) = Entries.ofPaste (String.ofList text) ∧
            ('\r' ∉ text → ∀ disk path place,
              IsTarget disk path place (some (Utf8.encodeText text)) → ∀ entries count after,
                Succeeds (writeSettings path entries)
                    (disk.put place (.file (Utf8.encodeText (withReturns text)))) count after ↔
                  Succeeds (writeSettings path entries) disk count after) := by
  have hsame := sameLines_withReturns text
  refine ⟨candidates_eq_of_sameLines hsame, ?_, ofText_eq_of_sameLines hsame,
    ofPaste_eq_of_sameLines hsame, ?_⟩
  · rw [variableKeys, variableKeys, hsame.filterMap_key?_lines]
  · intro hcr disk path place htarget entries count after
    exact htarget.succeeds_writeSettings_put_iff (setEntries_withReturns hcr entries)

/-- A file of one line, which is written to. -/
theorem withReturns_changes_nothing_of_line :
    '\r' ∉ "A=1\n".toList ∧
      IsTarget sampleDisk (.ofRoot [".env"]) [".env"] (some (Utf8.encodeText "A=1\n".toList)) ∧
        ∃ after, Succeeds (writeSettings (.ofRoot [".env"]) (OrderedMap.ofList [("B", "2")]))
          (sampleDisk.put [".env"] (.file (Utf8.encodeText (withReturns "A=1\n".toList)))) 1 after := by
  have hcan : CanBeWritten sampleDisk [".env"] :=
    isTarget_sampleDisk.canBeWritten_iff.mpr ⟨[], ".env", rfl, by decide, by decide⟩
  obtain ⟨after, hwrite⟩ : ∃ after,
      Succeeds (writeSettings (.ofRoot [".env"]) (OrderedMap.ofList [("B", "2")])) sampleDisk 1 after :=
    ⟨_, isTarget_sampleDisk.succeeds_writeSettings_iff.mpr ⟨hcan, rfl, rfl⟩⟩
  have hreturns := (withReturns_changes_nothing "A=1\n".toList).2.2.2.2 (by decide) sampleDisk
    (.ofRoot [".env"]) [".env"] isTarget_sampleDisk (OrderedMap.ofList [("B", "2")]) 1 after
  exact ⟨by decide, isTarget_sampleDisk, after, hreturns.mpr hwrite⟩

end EnvFill.Project
