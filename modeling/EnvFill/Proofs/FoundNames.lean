import EnvFill.Proofs.Template

/-!
# Names that are found

Whether as a key or by a reference, only names of variables are found in a file. They can be written
as keys, and where returns are paired, the keys found are those that the file is read to set.
-/

namespace EnvFill.Name

open Regex Text EnvFile

variable {text : List Char} {key : String}

theorem isVariableName_of_mem_candidates (hkey : key ∈ candidates text) :
    IsVariableName key.toList := by
  obtain ⟨⟨rule, hrule, hkey⟩, -⟩ := mem_candidates_iff.mp hkey
  obtain ⟨form, hclear, hform⟩ := exists_form_of_mem_rules hrule
  obtain ⟨_, _, _, _, hrefers⟩ := (mem_extract_iff hform hclear).mp hkey
  exact hrefers.isVariableName

/-- The shape of a key allows a line feed at its end. -/
theorem exists_of_isVariableKey (hkey : isVariableKey key = true) :
    ∃ name rest, key.toList = name ++ rest ∧ IsVariableName name ∧ (rest = [] ∨ rest = ['\n']) := by
  rw [isVariableKey, Bool.and_eq_true, occursIn_iff_takes] at hkey
  obtain ⟨⟨front, taken, rest, captured, htext, htakes⟩, -⟩ := hkey
  have hshape : ∀ {others : List Regex} {before : Option Char} {taken rest : List Char}
      {captured : Option (List Char)}, Takes (inOrder (shape :: others)) before taken rest captured ↔
        Takes (.seq shape (inOrder others)) before taken rest captured := takes_inOrder_cons_iff
  simp only [Regex.start, Regex.stop, takes_inOrder_place_iff, hshape, takes_seq_iff, takes_shape_iff,
    takes_inOrder_nil_iff] at htakes
  obtain ⟨hstart, name, _, _, _, rfl, ⟨hname, rfl⟩, ⟨hstop, rfl, rfl⟩, -⟩ := htakes
  obtain rfl : front = [] := by simpa using hstart
  refine ⟨name, rest, by simpa using htext, hname, ?_⟩
  simpa using hstop

theorem IsVariableName.isWritableKey (hname : IsVariableName key.toList) : IsWritableKey key := by
  refine .of_forall hname.ne_nil fun c hc => ?_
  have hchar := hname.isNameChar c hc
  refine ⟨hname.isBlank c hc, ?_, ?_⟩
  · rintro rfl
    exact absurd hchar (by decide)
  · rintro rfl
    exact absurd hchar (by decide)

end EnvFill.Name

namespace EnvFill.Project

open Text EnvFile Name

variable {text : List Char} {bytes : List UInt8} {key : String}

theorem mem_of_key? {line key : List Char} (hkey : Line.key? line = some key) {c : Char}
    (hc : c ∈ key) : c ∈ line := by
  obtain ⟨⟨found, raw⟩, hsplit, rfl⟩ := Option.map_eq_some_iff.mp hkey
  exact Line.mem_of_split? hsplit (.inl hc)

theorem isVariableName_of_mem_variableKeys (hkey : key ∈ variableKeys (lines text)) :
    IsVariableName key.toList := by
  rw [variableKeys, Sorted.mem_ofList, List.mem_filter, List.mem_map] at hkey
  obtain ⟨⟨chars, hchars, rfl⟩, hvariable⟩ := hkey
  obtain ⟨line, hline, hkey⟩ := List.mem_filterMap.mp hchars
  obtain ⟨name, rest, htext, hname, hrest⟩ := exists_of_isVariableKey hvariable
  rw [String.toList_ofList] at htext ⊢
  rcases hrest with rfl | rfl
  · rwa [htext, List.append_nil]
  · exfalso
    have hmem : '\n' ∈ line := mem_of_key? hkey (by rw [htext]; simp)
    simpa using (forall_of_mem_splitAtEach hline '\n' hmem).2

theorem key?_decodeLossy (line : List UInt8) :
    Line.key? (Utf8.decodeLossy line) = (settingOf? line).map fun pair => pair.1.toList := by
  unfold Line.key? settingOf?
  rw [Option.map_map]
  congr 1
  funext pair
  exact String.toList_ofList.symm

/-- **Found keys are keys that are read.** -/
theorem mem_variableKeys_iff (hpaired : HasPairedReturns bytes) :
    key ∈ variableKeys (lines (Utf8.decodeLossy bytes)) ↔
      isVariableKey key = true ∧ key ∈ (settingsOf (some bytes)).keys := by
  rw [variableKeys, Sorted.mem_ofList, List.mem_filter, filterMap_key?_decodeLossy hpaired,
    settingsOf_eq, OrderedMap.mem_keys_ofList, and_comm, linesOf]
  refine and_congr_right fun _ => ?_
  simp only [List.mem_map, List.mem_filterMap]
  constructor
  · rintro ⟨_, ⟨_, ⟨line, hline, rfl⟩, hkey⟩, rfl⟩
    rw [key?_decodeLossy] at hkey
    obtain ⟨pair, hpair, rfl⟩ := Option.map_eq_some_iff.mp hkey
    exact ⟨pair, ⟨line, hline, hpair⟩, String.ofList_toList.symm⟩
  · rintro ⟨pair, ⟨line, hline, hpair⟩, rfl⟩
    refine ⟨pair.1.toList, ⟨_, ⟨line, hline, rfl⟩, ?_⟩, String.ofList_toList⟩
    rw [key?_decodeLossy, hpair]
    rfl

end EnvFill.Project
