import EnvFill.Project.Scan
import EnvFill.Proofs.KeptReferences
import EnvFill.Proofs.ReadBack

/-!
# A template with new keys

A template that gets new keys names nothing else that it did not name before: neither as a key nor by
a reference.
-/

namespace EnvFill.EnvFile

open Text Name

variable {content : Option (List UInt8)} {bytes : List UInt8} {missing : List String} {key : String}

/-- Names that are added unless they are there, each where it first comes. -/
theorem foldl_addNew_eq (names added : List String) :
    added.foldl (fun names name => if names.contains name then names else names ++ [name]) names =
      names ++ (added.filter (· ∉ names)).eraseDups := by
  induction added generalizing names with
  | nil => simp
  | cons first rest ih =>
    rw [List.foldl_cons, ih, List.filter_cons]
    by_cases hknown : first ∈ names
    · simp [hknown]
    · have hlater : (rest.filter (· ∉ names ++ [first])) =
          (rest.filter (· ∉ names)).filter fun name => !name == first := by
        rw [List.filter_filter]
        refine List.filter_congr fun name _ => ?_
        rw [Bool.eq_iff_iff]
        simp [and_comm]
      rw [if_neg (by simpa using hknown), if_pos (by simpa using hknown), List.eraseDups_cons, hlater,
        List.append_assoc, List.singleton_append]

theorem mem_foldl_addNew {names added : List String} :
    key ∈ added.foldl (fun names name => if names.contains name then names else names ++ [name])
        names ↔
      key ∈ names ∨ key ∈ added := by
  rw [foldl_addNew_eq, List.mem_append, List.mem_eraseDups, List.mem_filter, decide_eq_true_iff]
  by_cases hold : key ∈ names <;> simp [hold]

theorem mem_missingKeys_iff {keys : List String} :
    key ∈ missingKeys content keys ↔
      key ∈ keys ∧ glyphs key ∉ (linesOf content).filterMap keyOf? := by
  unfold missingKeys
  dsimp only
  rw [mem_foldl_addNew, List.mem_filter]
  simp

def keyLine (key : String) : List UInt8 := Utf8.encodeText (key.toList ++ ['='])

def templateTop (content : Option (List UInt8)) : List (List UInt8) :=
  match content with
  | none => templateHeader.map fun line => Utf8.encodeText line.toList
  | some bytes => keptLines (byteLines bytes)

def newKeyLines (above : List (List UInt8)) (missing : List String) : List (List UInt8) :=
  (if above.isEmpty then [] else [[]]) ++ missing.map keyLine

theorem addKeys_eq (content : Option (List UInt8)) (missing : List String) :
    addKeys content missing =
      joinByteLines (templateTop content ++ newKeyLines (templateTop content) missing) := by
  unfold addKeys newKeyLines
  rw [← List.append_assoc]
  cases content <;> rfl

theorem isFileLine_keyLine (hkey : IsWritableKey key) : IsFileLine (keyLine key) := by
  unfold IsFileLine keyLine
  rw [Utf8.mem_encodeText_iff (by decide), Utf8.mem_encodeText_iff (by decide), List.mem_append,
    List.mem_append, not_or, not_or]
  exact ⟨⟨hkey.lf_not_mem, by decide⟩, hkey.cr_not_mem, by decide⟩

theorem settingOf?_keyLine (hkey : IsWritableKey key) : settingOf? (keyLine key) = some (key, "") := by
  rw [settingOf?, keyLine, Utf8.decodeLossy_encodeText, hkey.isKey.split?_eq, Option.map_some]
  dsimp only
  rw [String.ofList_toList]
  rfl

theorem isFileLine_of_mem_templateTop {line : List UInt8} (hline : line ∈ templateTop content) :
    IsFileLine line := by
  cases content with
  | none =>
    have hall : ∀ line ∈ templateTop none, Byte.lf ∉ line ∧ Byte.cr ∉ line := by decide
    exact hall line hline
  | some bytes =>
    exact isFileLine_of_mem_byteLines ((List.rdropWhile_prefix isBlankLine (byteLines bytes)).subset hline)

/-- The last of the lines sets a key, so none of them is left out. -/
theorem writtenLines_append_newKeyLines (above : List (List UInt8)) (hne : missing ≠ []) :
    writtenLines (above ++ newKeyLines above missing) = above ++ newKeyLines above missing := by
  obtain ⟨front, last, rfl⟩ := List.eq_nil_or_concat' missing |>.resolve_left hne
  have hlast : ¬(keyLine last).isEmpty = true := by
    simp [keyLine, Utf8.encodeText, String.utf8EncodeChar]
  have htrim : trimEmpty (above ++ newKeyLines above (front ++ [last])) =
      above ++ newKeyLines above (front ++ [last]) := by
    unfold trimEmpty newKeyLines
    rw [List.map_append, ← List.append_assoc, ← List.append_assoc]
    exact dropEndWhile_concat _ hlast
  rw [writtenLines, htrim, if_neg (by simp [newKeyLines])]

theorem eq_nil_or_keyLine_of_mem_newKeyLines {above : List (List UInt8)} {line : List UInt8}
    (hline : line ∈ newKeyLines above missing) : line = [] ∨ ∃ key ∈ missing, line = keyLine key := by
  rcases List.mem_append.mp hline with hline | hline
  · split at hline
    · simp at hline
    · exact .inl (List.mem_singleton.mp hline)
  · obtain ⟨key, hkey, rfl⟩ := List.mem_map.mp hline
    exact .inr ⟨key, hkey, rfl⟩

section NewKeys

variable (hmissing : ∀ key ∈ missing, IsWritableKey key)

include hmissing

theorem isFileLine_of_mem_newKeyLines {above : List (List UInt8)} {line : List UInt8}
    (hline : line ∈ newKeyLines above missing) : IsFileLine line := by
  rcases eq_nil_or_keyLine_of_mem_newKeyLines hline with rfl | ⟨key, hkey, rfl⟩
  · exact ⟨List.not_mem_nil, List.not_mem_nil⟩
  · exact isFileLine_keyLine (hmissing key hkey)

theorem isFileLine_of_mem_addKeys {line : List UInt8}
    (hline : line ∈ templateTop content ++ newKeyLines (templateTop content) missing) :
    IsFileLine line := by
  rcases List.mem_append.mp hline with hline | hline
  · exact isFileLine_of_mem_templateTop hline
  · exact isFileLine_of_mem_newKeyLines hmissing hline

theorem cr_not_mem_addKeys : Byte.cr ∉ addKeys content missing := by
  rw [addKeys_eq]
  exact cr_not_mem_joinByteLines fun _ => isFileLine_of_mem_addKeys hmissing

/-- A template with new keys is written line by line. -/
theorem addKeys_eq_endEach (hne : missing ≠ []) :
    addKeys content missing =
      endEach Byte.lf (templateTop content ++ newKeyLines (templateTop content) missing) := by
  rw [addKeys_eq, joinByteLines_eq fun line hline => (isFileLine_of_mem_addKeys hmissing hline).1,
    writtenLines_append_newKeyLines _ hne]

/-- The keys of a template after keys were added. -/
theorem mem_keys_of_addKeys (hkey : key ∈ (settingsOf (some (addKeys content missing))).keys) :
    key ∈ (settingsOf content).keys ∨ key ∈ missing := by
  rw [settingsOf_eq, OrderedMap.mem_keys_ofList, addKeys_eq, linesOf,
    byteLines_joinByteLines fun _ => isFileLine_of_mem_addKeys hmissing,
    filterMap_writtenLines_append (settingOf?_of_equals_not_mem List.not_mem_nil)] at hkey
  obtain ⟨pair, hpair, rfl⟩ := List.mem_map.mp hkey
  obtain ⟨line, hline, hsetting⟩ := List.mem_filterMap.mp hpair
  rcases List.mem_append.mp hline with hline | hline
  · cases content with
    | none =>
      have hall : ∀ line ∈ templateTop none, equalsByte ∉ line := by decide
      rw [settingOf?_of_equals_not_mem (hall line hline)] at hsetting
      exact absurd hsetting (by simp)
    | some bytes =>
      refine .inl ?_
      rw [settingsOf_eq, OrderedMap.mem_keys_ofList]
      have hold := (List.rdropWhile_prefix isBlankLine (byteLines bytes)).subset hline
      exact List.mem_map_of_mem (List.mem_filterMap.mpr ⟨line, hold, hsetting⟩)
  · rcases eq_nil_or_keyLine_of_mem_newKeyLines hline with rfl | ⟨added, hadded, rfl⟩
    · rw [settingOf?_of_equals_not_mem List.not_mem_nil] at hsetting
      exact absurd hsetting (by simp)
    · rw [settingOf?_keyLine (hmissing added hadded)] at hsetting
      rw [← Option.some.inj hsetting]
      exact .inr hadded

end NewKeys

theorem decodeLossy_endEach (lines : List (List UInt8)) :
    Utf8.decodeLossy (endEach Byte.lf lines) = endEach '\n' (lines.map Utf8.decodeLossy) := by
  have hlines := decodeLossy_endEach_append lines []
  rwa [List.append_nil, Utf8.decodeLossy_nil, List.append_nil] at hlines

theorem areKeyLines_newKeyLines (above : List (List UInt8)) (missing : List String) :
    AreKeyLines missing ((newKeyLines above missing).map Utf8.decodeLossy) := by
  intro line hline
  obtain ⟨bytes, hbytes, rfl⟩ := List.mem_map.mp hline
  rcases eq_nil_or_keyLine_of_mem_newKeyLines hbytes with rfl | ⟨key, hkey, rfl⟩
  · exact .inl Utf8.decodeLossy_nil
  · exact .inr ⟨key, hkey, Utf8.decodeLossy_encodeText _⟩

/-- The text of a template with new keys. -/
theorem decodeLossy_addKeys (hne : missing ≠ []) (hmissing : ∀ key ∈ missing, IsWritableKey key) :
    Utf8.decodeLossy (addKeys content missing) =
      endEach '\n' ((templateTop content).map Utf8.decodeLossy) ++
        endEach '\n' ((newKeyLines (templateTop content) missing).map Utf8.decodeLossy) := by
  rw [addKeys_eq_endEach hmissing hne, decodeLossy_endEach, List.map_append, endEach_append]

/-- A text up to its last line that is not blank, and what comes after it. -/
theorem exists_text_templateTop {above : List (List UInt8)} {last : List UInt8}
    (htop : templateTop (some bytes) = above ++ [last]) :
    ∃ tail, Utf8.decodeLossy (unifyLineEnds bytes) =
        endEach '\n' (above.map Utf8.decodeLossy) ++ Utf8.decodeLossy last ++ tail ∧
      tail.head?.any isWord = false := by
  obtain ⟨blank, hlines, -⟩ := exists_append_dropEndWhile isBlankLine (byteLines bytes)
  have hkept : dropEndWhile isBlankLine (byteLines bytes) = above ++ [last] := htop
  rw [hkept] at hlines
  obtain ⟨front, stop, hsplit, htext⟩ := exists_endEach_append Byte.lf (unifyLineEnds bytes)
  have hsame : front ++ [stop] = above ++ [last] ++ blank := hsplit.symm.trans hlines
  rw [htext, decodeLossy_endEach_append]
  rcases List.eq_nil_or_concat' blank with rfl | ⟨blank, final, rfl⟩
  · rw [List.append_nil] at hsame
    obtain ⟨rfl, hstop⟩ := List.append_inj' hsame rfl
    obtain rfl := List.singleton_inj.mp hstop
    exact ⟨[], (List.append_nil _).symm, rfl⟩
  · rw [← List.append_assoc] at hsame
    obtain ⟨rfl, hstop⟩ := List.append_inj' hsame rfl
    obtain rfl := List.singleton_inj.mp hstop
    refine ⟨'\n' :: (endEach '\n' (blank.map Utf8.decodeLossy) ++ Utf8.decodeLossy stop), ?_, ?_⟩
    · simp
    · change isWord '\n' = false
      decide

/-- The remark at the top of a new template refers to nothing. -/
theorem candidates_templateHeader {above : List (List UInt8)} {last : List UInt8}
    (htop : templateTop none = above ++ [last]) :
    candidates (endEach '\n' (above.map Utf8.decodeLossy) ++ Utf8.decodeLossy last ++ []) = [] := by
  have hlines : [Utf8.encodeText "# Environment variables used by this project".toList] ++
      [Utf8.encodeText "# Copy this file to .env and fill in the values".toList] = above ++ [last] := htop
  obtain ⟨rfl, hlast⟩ := List.append_inj' hlines rfl
  obtain rfl := List.singleton_inj.mp hlast
  rw [List.map_singleton, Utf8.decodeLossy_encodeText, Utf8.decodeLossy_encodeText]
  decide +kernel

/-- **A template with new keys refers to nothing else that is new.** -/
theorem mem_candidates_of_addKeys (hne : missing ≠ [])
    (hmissing : ∀ key ∈ missing, IsWritableKey key)
    (hnames : ∀ key ∈ missing, IsVariableName key.toList)
    (hpaired : ∀ bytes ∈ content, HasPairedReturns bytes)
    (hkey : key ∈ candidates (Utf8.decodeLossy (addKeys content missing))) :
    (∃ bytes ∈ content, key ∈ candidates (Utf8.decodeLossy bytes)) ∨ key ∈ missing := by
  have hlines := areKeyLines_newKeyLines (templateTop content) missing
  rw [decodeLossy_addKeys hne hmissing] at hkey
  rcases List.eq_nil_or_concat' (templateTop content) with htop | ⟨above, last, htop⟩
  · rw [htop] at hkey hlines
    exact .inr (mem_of_mem_candidates_keyLines hnames hlines hkey)
  · have htext : endEach '\n' ((templateTop content).map Utf8.decodeLossy) =
        endEach '\n' (above.map Utf8.decodeLossy) ++ Utf8.decodeLossy last ++ ['\n'] := by
      rw [htop]
      simp
    rw [htext, List.append_assoc, List.singleton_append] at hkey
    cases content with
    | none =>
      rcases mem_candidates_of_keyLines_below hnames hlines (show ([] : List Char).head?.any isWord =
        false from rfl) hkey with hkey | hkey
      · rw [candidates_templateHeader htop] at hkey
        exact absurd hkey List.not_mem_nil
      · exact .inr hkey
    | some bytes =>
      obtain ⟨tail, hold, htail⟩ := exists_text_templateTop htop
      rcases mem_candidates_of_keyLines_below hnames hlines htail hkey with hkey | hkey
      · rw [← hold] at hkey
        exact .inl ⟨bytes, rfl, candidates_of_sameLines (sameLines_decodeLossy (hpaired bytes rfl)) hkey⟩
      · exact .inr hkey

end EnvFill.EnvFile
