import EnvFill.Proofs.ReadWrites

/-!
# Written values that are pasted

A written setting that is pasted is read as it was, unless its value has a `#` after a space: what follows
is taken for a remark, even in quotes. With a remark after it, it is read as it was only if it is written
without quotes, since quotes are taken off only where they enclose all of what is pasted.
-/

namespace EnvFill.EnvFile

open Text

variable {text kept front value : List Char} {key : String}

def HasRemark (text : List Char) : Prop := [' ', '#'] <:+: text

instance : DecidablePred HasRemark := fun text => inferInstanceAs (Decidable ([' ', '#'] <:+: text))

theorem hasRemark_cons_iff {c : Char} {rest : List Char} :
    HasRemark (c :: rest) ↔ c = ' ' ∧ rest.head? = some '#' ∨ HasRemark rest := by
  have hhead : ['#'] <+: rest ↔ rest.head? = some '#' := by
    rw [List.head?_eq_some_iff]
    exact ⟨fun ⟨remark, hrest⟩ => ⟨remark, hrest.symm⟩, fun ⟨remark, hrest⟩ => ⟨remark, hrest.symm⟩⟩
  rw [HasRemark, List.infix_cons_iff, List.cons_prefix_cons, hhead, eq_comm, HasRemark]

theorem not_hasRemark_of_space_not_mem (htext : ' ' ∉ text) : ¬HasRemark text :=
  fun hremark => htext (hremark.subset List.mem_cons_self)

theorem hasRemark_of_hasRemark_concat {c : Char} (hc : c ≠ '#') (hremark : HasRemark (text ++ [c])) :
    HasRemark text := by
  rcases List.infix_concat_iff.mp hremark with hend | hinner
  · obtain ⟨front, hfront⟩ := hend
    have hlast := congrArg List.getLast? hfront
    rw [List.getLast?_concat, List.getLast?_append_of_ne_nil _ (List.cons_ne_nil _ _)] at hlast
    exact absurd (Option.some.inj hlast).symm hc
  · exact hinner

theorem cutRemark_cons {c : Char} {rest : List Char} (hc : ¬(c = ' ' ∧ rest.head? = some '#')) :
    cutRemark (c :: rest) = (cutRemark rest).map (c :: ·) := by
  rw [cutRemark]
  rintro remark rfl rfl
  exact hc ⟨rfl, rfl⟩

theorem cutRemark_eq_none_iff : cutRemark text = none ↔ ¬HasRemark text := by
  induction text with
  | nil => simp [cutRemark, HasRemark]
  | cons c rest ih =>
    rw [hasRemark_cons_iff]
    by_cases hc : c = ' ' ∧ rest.head? = some '#'
    · obtain ⟨rfl, hhead⟩ := hc
      obtain ⟨remark, rfl⟩ := List.head?_eq_some_iff.mp hhead
      simp [cutRemark]
    · rw [cutRemark_cons hc, Option.map_eq_none_iff, ih]
      simp [hc]

theorem exists_of_cutRemark (hcut : cutRemark text = some kept) :
    (∃ remark, text = kept ++ ' ' :: '#' :: remark) ∧ ¬HasRemark kept := by
  induction text generalizing kept with
  | nil => simp [cutRemark] at hcut
  | cons c rest ih =>
    by_cases hc : c = ' ' ∧ rest.head? = some '#'
    · obtain ⟨rfl, hhead⟩ := hc
      obtain ⟨remark, rfl⟩ := List.head?_eq_some_iff.mp hhead
      obtain rfl : kept = [] := by simpa [cutRemark] using hcut.symm
      exact ⟨⟨remark, rfl⟩, by decide⟩
    · rw [cutRemark_cons hc] at hcut
      obtain ⟨front, hfront, rfl⟩ := Option.map_eq_some_iff.mp hcut
      obtain ⟨⟨remark, rfl⟩, hnone⟩ := ih hfront
      refine ⟨⟨remark, rfl⟩, ?_⟩
      rw [hasRemark_cons_iff, not_or]
      refine ⟨fun hstart => hc ⟨hstart.1, ?_⟩, hnone⟩
      rw [List.head?_append, hstart.2, Option.some_or]

theorem cutRemark_append (hkept : ¬HasRemark kept) (remark : List Char) :
    cutRemark (kept ++ ' ' :: '#' :: remark) = some kept := by
  induction kept with
  | nil => rfl
  | cons c rest ih =>
    rw [hasRemark_cons_iff, not_or] at hkept
    have hc : ¬(c = ' ' ∧ (rest ++ ' ' :: '#' :: remark).head? = some '#') := by
      rintro ⟨hspace, hhead⟩
      cases rest with
      | nil => exact absurd hhead (by simp)
      | cons d rest => exact hkept.1 ⟨hspace, hhead⟩
    rw [List.cons_append, cutRemark_cons hc, ih hkept.2, Option.map_some]

theorem pastedLines_of_lf_not_mem (htext : '\n' ∉ text) : pastedLines text = [text] := by
  fun_induction pastedLines text with
  | case1 => rfl
  | case2 rest => simp at htext
  | case3 rest => simp at htext
  | case4 c rest _ _ ih =>
    rw [ih (fun hmem => htext (List.mem_cons_of_mem c hmem))]
    rfl

theorem pastedSetting?_line (hkey : isPlainKey key.toList = true) (text : List Char) :
    pastedSetting? (key.toList ++ '=' :: text) = some (key, String.ofList (pastedValue (strip text))) := by
  have hwritable : IsWritableKey key := isWritableKey_of_isPlainKey hkey
  have hsplit : Line.split? (key.toList ++ '=' :: text) = some (key.toList, strip text) :=
    hwritable.isKey.split?_eq text
  have hstart : "//".toList.isPrefixOf (strip (key.toList ++ '=' :: text)) = false := by
    rw [strip_append_cons key.toList (by decide), dropWhile_eq_self_of_strip hwritable.strip_eq]
    cases htext : key.toList with
    | nil => exact absurd htext hwritable.ne_nil
    | cons first rest =>
      have hfirst : first ≠ '/' := by
        rintro rfl
        rw [htext] at hkey
        exact Bool.noConfusion hkey
      simp [List.isPrefixOf, hfirst.symm]
  rw [pastedSetting?, hstart, hsplit, if_neg Bool.false_ne_true]
  dsimp only
  rw [if_pos hkey, String.ofList_toList]

theorem ofPaste_line (hkey : isPlainKey key.toList = true) (htext : '\n' ∉ text) :
    Entries.ofPaste (key ++ "=" ++ String.ofList text) =
      OrderedMap.ofList [(key, String.ofList (pastedValue (strip text)))] := by
  have hline : (key ++ "=" ++ String.ofList text).toList = key.toList ++ '=' :: text := by simp
  have hfeed : '\n' ∉ key.toList ++ '=' :: text := by
    have hfeedKey : '\n' ∉ key.toList := (isWritableKey_of_isPlainKey hkey).lf_not_mem
    simp [htext, hfeedKey]
  rw [Entries.ofPaste, hline, pastedLines_of_lf_not_mem hfeed,
    List.filterMap_cons_some (pastedSetting?_line hkey text), List.filterMap_nil]

theorem flatten_consFirst {α : Type} (a : α) (lines : List (List α)) :
    (consFirst a lines).flatten = a :: lines.flatten := by
  cases lines <;> rfl

/-- Cutting a text into lines leaves out line ends and nothing else. -/
theorem flatten_pastedLines_sublist (text : List Char) : (pastedLines text).flatten.Sublist text := by
  fun_induction pastedLines text with
  | case1 => exact List.Sublist.refl []
  | case2 rest ih => exact (ih.cons _).cons _
  | case3 rest ih => exact ih.cons _
  | case4 c rest _ _ ih =>
    rw [flatten_consFirst]
    exact ih.cons_cons c

/-- A key that a paste sets is a usual one and stands on a line of the text. -/
theorem exists_line_of_mem_ofPaste {text : String} (hkey : key ∈ (Entries.ofPaste text).keys) :
    isPlainKey key.toList = true ∧
      ∃ line ∈ pastedLines text.toList, ∃ raw, Line.split? line = some (key.toList, raw) := by
  rw [Entries.ofPaste, OrderedMap.mem_keys_ofList, List.mem_map] at hkey
  obtain ⟨pair, hpair, rfl⟩ := hkey
  obtain ⟨line, hline, hsetting⟩ := List.mem_filterMap.mp hpair
  unfold pastedSetting? at hsetting
  split at hsetting
  · cases hsetting
  split at hsetting
  · rename_i name raw hsplit
    split at hsetting
    · rename_i hplain
      rw [← Option.some.inj hsetting, String.toList_ofList]
      exact ⟨hplain, line, hline, raw, hsplit⟩
    · cases hsetting
  · cases hsetting

/-- A text with a setting is not blank. -/
theorem isAllBlank_of_mem_ofPaste {text : String} (hkey : key ∈ (Entries.ofPaste text).keys) :
    isAllBlank text.toList = false := by
  obtain ⟨-, line, hline, raw, hsplit⟩ := exists_line_of_mem_ofPaste hkey
  obtain ⟨before, after, rfl, -⟩ := Line.exists_of_split? hsplit
  have hequals : '=' ∈ text.toList := by
    refine (flatten_pastedLines_sublist text.toList).subset (List.mem_flatten_of_mem hline ?_)
    exact List.mem_append_right before List.mem_cons_self
  rw [isAllBlank, List.all_eq_false]
  exact ⟨'=', hequals, by decide⟩

theorem not_hasRemark_pastedValue (text : List Char) : ¬HasRemark (pastedValue text) := by
  unfold pastedValue
  cases hcut : cutRemark (Value.unquote text) with
  | none => simpa only [hcut] using cutRemark_eq_none_iff.mp hcut
  | some kept =>
    simp only [hcut]
    intro hremark
    exact (exists_of_cutRemark hcut).2 (hremark.trans (isInfix_strip kept))

theorem hasRemark_of_hasRemark_escape (hremark : HasRemark (value.flatMap Value.escapeChar)) :
    HasRemark value := by
  induction value with
  | nil => exact hremark
  | cons c rest ih =>
    rw [List.flatMap_cons] at hremark
    rw [hasRemark_cons_iff]
    by_cases hescaped : c = '\\' ∨ c = '"' ∨ c = '\n'
    · -- What is escaped is written as two characters, neither of which is a space.
      refine .inr (ih ?_)
      rcases hescaped with rfl | rfl | rfl <;>
        simpa [Value.escapeChar, hasRemark_cons_iff] using hremark
    · have hplain : Value.escapeChar c = [c] := by simp_all [Value.escapeChar]
      rw [hplain, List.singleton_append, hasRemark_cons_iff] at hremark
      rcases hremark with ⟨hspace, hhead⟩ | hlater
      · exact .inl ⟨hspace, Value.head?_of_head?_flatMap_escapeChar (by decide) hhead⟩
      · exact .inr (ih hlater)

/-- No remark comes into a value when it is written. -/
theorem hasRemark_of_hasRemark_format (hremark : HasRemark (Value.format value)) : HasRemark value := by
  unfold Value.format at hremark
  split_ifs at hremark
  · exact absurd hremark (by decide)
  · rw [List.cons_append, hasRemark_cons_iff] at hremark
    obtain ⟨hquote, -⟩ | hinner := hremark
    · exact absurd hquote (by decide)
    · exact hasRemark_of_hasRemark_escape (hasRemark_of_hasRemark_concat (by decide) hinner)
  · exact hremark

theorem pastedValue_format_iff : pastedValue (Value.format value) = value ↔ ¬HasRemark value := by
  constructor
  · intro heq
    rw [← heq]
    exact not_hasRemark_pastedValue _
  · intro hvalue
    rw [pastedValue, Value.unquote_format, cutRemark_eq_none_iff.mpr hvalue]

/-- With a remark after it, the written form of a value is what is read. -/
theorem pastedValue_format_remark {remark : List Char} (hvalue : ¬HasRemark value)
    (hdouble : '"' ∉ remark) (hsingle : '\'' ∉ remark) :
    pastedValue (strip (Value.format value ++ ' ' :: '#' :: remark)) = Value.format value := by
  obtain ⟨rest, hrest, hstrip⟩ : ∃ rest, rest <+: remark ∧
      strip (Value.format value ++ ' ' :: '#' :: remark) = Value.format value ++ ' ' :: '#' :: rest := by
    refine ⟨dropEndWhile (Character.satisfies isBlank) remark, List.rdropWhile_prefix _ _, ?_⟩
    have hfront := dropWhile_eq_self_of_strip (Value.strip_format value)
    rw [List.append_cons, strip_append_cons _ (by decide), List.dropWhile_append, hfront,
      if_neg (by simpa using Value.format_ne_nil value), ← List.append_cons]
  have hlast : ∀ c ∈ (Value.format value ++ ' ' :: '#' :: rest).getLast?, c ≠ '"' ∧ c ≠ '\'' := by
    intro c hc
    rw [List.append_cons, List.getLast?_append_of_ne_nil _ (List.cons_ne_nil _ _)] at hc
    rcases List.mem_cons.mp (List.mem_of_getLast? hc) with rfl | hmem
    · decide
    · refine ⟨?_, ?_⟩
      · rintro rfl
        exact hdouble (hrest.subset hmem)
      · rintro rfl
        exact hsingle (hrest.subset hmem)
  have hkept : ¬HasRemark (Value.format value) :=
    fun hremark => hvalue (hasRemark_of_hasRemark_format hremark)
  rw [hstrip, pastedValue, Value.unquote_eq_self hlast, cutRemark_append hkept]
  exact Value.strip_format value

theorem pastedValue_format_remark_iff {remark : List Char} (hdouble : '"' ∉ remark)
    (hsingle : '\'' ∉ remark) :
    pastedValue (strip (Value.format value ++ ' ' :: '#' :: remark)) = value ↔
      value ≠ [] ∧ Value.needsQuotes value = false := by
  rw [← Value.format_eq_self_iff]
  constructor
  · intro heq
    have hvalue : ¬HasRemark value := heq ▸ not_hasRemark_pastedValue _
    rw [← pastedValue_format_remark hvalue hdouble hsingle, heq]
  · intro heq
    have hbare := Value.not_special_of_not_needsQuotes (Value.format_eq_self_iff.mp heq).2
    have hspace : ' ' ∉ value := fun hmem => absurd (hbare _ hmem) (by decide)
    rw [pastedValue_format_remark (not_hasRemark_of_space_not_mem hspace) hdouble hsingle, heq]

theorem ofPaste_line_iff {value : String} (hkey : isPlainKey key.toList = true) (htext : '\n' ∉ text) :
    Entries.ofPaste (key ++ "=" ++ String.ofList text) = OrderedMap.ofList [(key, value)] ↔
      pastedValue (strip text) = value.toList := by
  rw [ofPaste_line hkey htext]
  constructor
  · intro heq
    have hpairs : [(key, String.ofList (pastedValue (strip text)))] = [(key, value)] :=
      congrArg OrderedMap.toList heq
    have hvalue : String.ofList (pastedValue (strip text)) = value := by simpa using hpairs
    rw [← hvalue, String.toList_ofList]
  · intro heq
    rw [heq, String.ofList_toList]

/-- **A written setting is read back when it is pasted** exactly if no `#` follows a space in its value.
With a remark after it, it is read back exactly if its value is written without quotes. -/
theorem ofPaste_format_iff (hkey : isPlainKey key.toList = true) (value : String) :
    (Entries.ofPaste (key ++ "=" ++ String.ofList (Value.format value.toList)) =
        OrderedMap.ofList [(key, value)] ↔ ¬HasRemark value.toList) ∧
      ∀ comment : String, '\n' ∉ comment.toList → '"' ∉ comment.toList → '\'' ∉ comment.toList →
        (Entries.ofPaste (key ++ "=" ++ String.ofList (Value.format value.toList) ++ " # " ++ comment) =
            OrderedMap.ofList [(key, value)] ↔
          value ≠ "" ∧ Value.needsQuotes value.toList = false) := by
  have hfeed : '\n' ∉ Value.format value.toList := Value.lf_not_mem_format value.toList
  refine ⟨?_, ?_⟩
  · rw [ofPaste_line_iff hkey hfeed, Value.strip_format, pastedValue_format_iff]
  · intro comment hline hdouble hsingle
    have hnil : value ≠ "" ↔ value.toList ≠ [] := by simp
    have htext : key ++ "=" ++ String.ofList (Value.format value.toList) ++ " # " ++ comment =
        key ++ "=" ++
          String.ofList (Value.format value.toList ++ ' ' :: '#' :: ' ' :: comment.toList) := by
      rw [← String.toList_inj]
      simp
    rw [htext, ofPaste_line_iff hkey (by simp [hfeed, hline]), hnil]
    exact pastedValue_format_remark_iff (by simp [hdouble]) (by simp [hsingle])

/-- A value in quotes, and a value without quotes before a remark. -/
theorem ofPaste_format_of_examples :
    Entries.ofPaste ("A" ++ "=" ++ String.ofList (Value.format "a=\"b\"".toList)) =
        OrderedMap.ofList [("A", "a=\"b\"")] ∧
      Entries.ofPaste ("A" ++ "=" ++ String.ofList (Value.format "ab".toList) ++ " # " ++ "old, new") =
        OrderedMap.ofList [("A", "ab")] :=
  ⟨(ofPaste_format_iff (by decide) "a=\"b\"").1.mpr (by decide),
    ((ofPaste_format_iff (by decide) "ab").2 "old, new" (by decide) (by decide) (by decide)).mpr
      (by decide)⟩

/-- A `#` in quotes cuts a value off, and quotes stay where a remark stands behind them. -/
theorem ofPaste_format_of_quotes :
    (Entries.ofPaste ("A" ++ "=" ++ String.ofList (Value.format "a #b".toList)) =
        OrderedMap.ofList [("A", "a")] ∧
      OrderedMap.ofList [("A", "a")] ≠ OrderedMap.ofList [("A", "a #b")]) ∧
    Entries.ofPaste ("A" ++ "=" ++ String.ofList (Value.format "a b".toList) ++ " # " ++ "x") =
        OrderedMap.ofList [("A", "\"a b\"")] ∧
      OrderedMap.ofList [("A", "\"a b\"")] ≠ OrderedMap.ofList [("A", "a b")] := by
  refine ⟨⟨?_, fun heq => ?_⟩, ?_, fun heq => ?_⟩
  · cbv
  · exact absurd (congrArg OrderedMap.toList heq) (by decide)
  · cbv
  · exact absurd (congrArg OrderedMap.toList heq) (by decide)

end EnvFill.EnvFile
