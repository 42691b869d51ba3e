import EnvFill.EnvFile.Value
import EnvFill.Proofs.Blanks

/-!
# Written values are read back

`unquote` undoes `format`. A written value holds no line feed, it does not begin or end with a
blank, and it is never empty, so it survives being put on a line after an `=`.
-/

namespace EnvFill.EnvFile.Value

open Text

@[simp]
theorem is_char (c a : Char) : Character.is c a = (a == c) := Character.is_ofChar c a

@[simp]
theorem satisfies_char (p : Char → Bool) (a : Char) : Character.satisfies p a = p a :=
  Character.satisfies_ofChar p a

theorem unescape_cons {c : Char} (hc : c ≠ '\\') (rest : List Char) :
    unescape (c :: rest) = c :: unescape rest := by
  cases rest with
  | nil => rfl
  | cons d rest => simp [unescape, hc]

theorem unescape_escape (value : List Char) : unescape (value.flatMap escapeChar) = value := by
  induction value with
  | nil => rfl
  | cons c rest ih =>
    rw [List.flatMap_cons]
    by_cases hbackslash : c = '\\'
    · subst hbackslash
      simp [escapeChar, unescape, ih, Character.ofChar]
    by_cases hquote : c = '"'
    · subst hquote
      simp [escapeChar, unescape, ih, Character.ofChar]
    by_cases hfeed : c = '\n'
    · subst hfeed
      simp [escapeChar, unescape, ih, Character.ofChar]
    have hplain : escapeChar c = [c] := by simp [escapeChar, hbackslash, hquote, hfeed]
    rw [hplain, List.singleton_append, unescape_cons hbackslash, ih]

theorem unquote_quoted (inner : List Char) :
    unquote ('"' :: inner ++ ['"']) = unescape inner := by
  simp [unquote, isEnclosedBy]

/-- A value that does not end in a quote is read as it stands. -/
theorem unquote_eq_self {value : List Char} (hvalue : ∀ c ∈ value.getLast?, c ≠ '"' ∧ c ≠ '\'') :
    unquote value = value := by
  have hnot : ∀ quote, (∀ c ∈ value.getLast?, c ≠ quote) → isEnclosedBy quote value = false := by
    intro quote hlast
    cases value with
    | nil => rfl
    | cons first rest =>
      cases hend : rest.getLast? with
      | none => simp [isEnclosedBy, hend]
      | some c =>
        have hc : c ≠ quote := hlast c (by rw [List.getLast?_cons, hend]; rfl)
        simp [isEnclosedBy, hend, hc]
  rw [unquote, hnot _ fun c hc => (hvalue c hc).1, hnot _ fun c hc => (hvalue c hc).2]
  rfl

theorem unquote_bare {value : List Char} (hdouble : '"' ∉ value) (hsingle : '\'' ∉ value) :
    unquote value = value := by
  refine unquote_eq_self fun c hc => ?_
  have hmem := List.mem_of_getLast? hc
  exact ⟨ne_of_mem_of_not_mem hmem hdouble, ne_of_mem_of_not_mem hmem hsingle⟩

theorem not_special_of_not_needsQuotes {value : List Char} (hbare : needsQuotes value = false) :
    ∀ c ∈ value, isSpecial c = false := by
  intro c hc
  have hall := List.any_eq_false.mp hbare c hc
  simpa using hall

/-- **Values are read back.** -/
theorem unquote_format (value : List Char) : unquote (format value) = value := by
  unfold format
  by_cases hempty : value.isEmpty
  · rw [if_pos hempty, List.isEmpty_iff.mp hempty]
    rfl
  by_cases hquotes : needsQuotes value
  · rw [if_neg hempty, if_pos hquotes, unquote_quoted, unescape_escape]
  · rw [if_neg hempty, if_neg hquotes]
    have hplain := not_special_of_not_needsQuotes (by simpa using hquotes)
    refine unquote_bare ?_ ?_
    · intro hmem
      exact absurd (hplain _ hmem) (by decide)
    · intro hmem
      exact absurd (hplain _ hmem) (by decide)

theorem mem_escapeChar {c d : Char} (hd : d ∈ escapeChar c) : d = c ∨ d = '\\' ∨ d = 'n' := by
  unfold escapeChar at hd
  split at hd
  · simp_all
  split at hd
  · rename_i hquote
    simp only [List.mem_cons, List.not_mem_nil, or_false] at hd
    rcases hd with rfl | rfl
    · exact .inr (.inl rfl)
    · exact .inl hquote.symm
  split at hd <;> simp_all

theorem not_mem_escapeChar (c : Char) : '\n' ∉ escapeChar c := by
  unfold escapeChar
  split
  · decide
  split
  · decide
  split
  · decide
  · rename_i hfeed
    simpa using Ne.symm hfeed

/-- A written value adds only these characters. -/
theorem mem_format {value : List Char} {d : Char} (hd : d ∈ format value) :
    d ∈ value ∨ d = '"' ∨ d = '\\' ∨ d = 'n' := by
  unfold format at hd
  split at hd
  · simp_all
  split at hd
  · simp only [List.cons_append, List.mem_cons, List.mem_append, List.not_mem_nil, or_false,
      List.mem_flatMap] at hd
    rcases hd with hd | ⟨c, hc, hd⟩ | hd
    · exact .inr (.inl hd)
    · rcases mem_escapeChar hd with rfl | hd
      · exact .inl hc
      · exact .inr (.inr hd)
    · exact .inr (.inl hd)
  · exact .inl hd

theorem lf_not_mem_format (value : List Char) : '\n' ∉ format value := by
  unfold format
  split
  · decide
  split
  · intro hmem
    simp only [List.cons_append, List.mem_cons, List.mem_append, List.not_mem_nil, or_false,
      List.mem_flatMap] at hmem
    rcases hmem with hmem | ⟨c, -, hmem⟩ | hmem
    · exact absurd hmem (by decide)
    · exact not_mem_escapeChar c hmem
    · exact absurd hmem (by decide)
  · rename_i hquotes
    intro hmem
    have hplain := not_special_of_not_needsQuotes (by simpa using hquotes) _ hmem
    exact absurd hplain (by decide)

theorem cr_not_mem_format {value : List Char} (hcr : '\r' ∉ value) : '\r' ∉ format value := by
  intro hmem
  rcases mem_format hmem with hmem | hmem
  · exact hcr hmem
  · exact absurd hmem (by decide)

theorem not_blank_of_not_special {c : Char} (hc : isSpecial c = false) : ¬IsBlankLetter c := by
  unfold isSpecial at hc
  simp_all [IsBlankLetter]

/-- A written value does not begin or end with a blank. -/
theorem strip_format (value : List Char) : strip (format value) = format value := by
  have hquote : ¬IsBlankLetter '"' := by
    rw [IsBlankLetter, satisfies_char]
    decide
  unfold format
  split
  · exact strip_eq_self (by simpa using hquote) (by simpa using hquote)
  split
  · refine strip_eq_self (by simpa using hquote) ?_
    rw [List.getLast?_concat]
    simpa using hquote
  · rename_i hquotes
    have hplain := not_special_of_not_needsQuotes (by simpa using hquotes)
    refine strip_eq_self ?_ ?_
    · intro c hc
      exact not_blank_of_not_special (hplain c (List.mem_of_mem_head? hc))
    · intro c hc
      exact not_blank_of_not_special (hplain c (List.mem_of_mem_getLast? hc))

theorem head?_of_head?_flatMap_escapeChar {value : List Char} {c : Char} (hc : c ≠ '\\')
    (hhead : (value.flatMap escapeChar).head? = some c) : value.head? = some c := by
  cases value with
  | nil => exact hhead
  | cons d rest =>
    rw [List.flatMap_cons] at hhead
    unfold escapeChar at hhead
    split_ifs at hhead
    · exact absurd (Option.some.inj hhead).symm hc
    · exact absurd (Option.some.inj hhead).symm hc
    · exact absurd (Option.some.inj hhead).symm hc
    · exact hhead

theorem length_le_length_flatMap_escapeChar (value : List Char) :
    value.length ≤ (value.flatMap escapeChar).length := by
  induction value with
  | nil => exact le_rfl
  | cons c rest ih =>
    have hone : 1 ≤ (escapeChar c).length := by
      unfold escapeChar
      split_ifs <;> simp
    rw [List.flatMap_cons, List.length_append, List.length_cons]
    omega

theorem format_ne_nil (value : List Char) : format value ≠ [] := by
  unfold format
  split_ifs with hempty
  · exact List.cons_ne_nil _ _
  · exact List.cons_ne_nil _ _
  · simpa using hempty

/-- These values are written as they are. -/
theorem format_eq_self_iff {value : List Char} :
    format value = value ↔ value ≠ [] ∧ needsQuotes value = false := by
  unfold format
  split_ifs with hempty hquotes
  · simp [List.isEmpty_iff.mp hempty]
  · have hlength := length_le_length_flatMap_escapeChar value
    refine iff_of_false (fun heq => ?_) (by simp [hquotes])
    have heq := congrArg List.length heq
    simp only [List.cons_append, List.length_cons, List.length_append, List.length_nil] at heq
    omega
  · simp_all

end EnvFill.EnvFile.Value
