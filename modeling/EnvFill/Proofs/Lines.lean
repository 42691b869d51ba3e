import EnvFill.Proofs.Blanks

/-!
# Lines of a file

Reading a file back gives the lines it was written from, as long as no line holds a line end. The
empty lines at the end are the exception: they are written as the one line feed that ends the file.
-/

namespace EnvFill.Text

section Split

variable {α : Type} {isEnd : α → Bool}

theorem splitAtEach_ne_nil (isEnd : α → Bool) (text : List α) :
    splitAtEach isEnd text ≠ [] := by
  cases text with
  | nil => simp [splitAtEach]
  | cons a rest =>
    unfold splitAtEach
    split
    · simp
    · cases splitAtEach isEnd rest <;> simp [consFirst]

/-- Splitting is that of the library. -/
theorem splitAtEach_eq_splitOnP (text : List α) : splitAtEach isEnd text = text.splitOnP isEnd := by
  induction text with
  | nil => rfl
  | cons a rest ih =>
    rw [splitAtEach, List.splitOnP_cons_eq_if_modifyHead, ih]
    split
    · rfl
    · obtain ⟨line, lines, hlines⟩ := List.exists_cons_of_ne_nil (List.splitOnP_ne_nil isEnd rest)
      rw [hlines]
      rfl

theorem forall_of_mem_splitAtEach {text line : List α} (hline : line ∈ splitAtEach isEnd text) :
    ∀ a ∈ line, a ∈ text ∧ isEnd a = false := by
  induction text generalizing line with
  | nil =>
    obtain rfl := List.mem_singleton.mp hline
    simp
  | cons b rest ih =>
    unfold splitAtEach at hline
    split at hline
    · rcases List.mem_cons.mp hline with rfl | hline
      · simp
      · intro a ha
        have hrest := ih hline a ha
        exact ⟨List.mem_cons_of_mem b hrest.1, hrest.2⟩
    · rename_i hb
      obtain ⟨first, lines, hlines⟩ :=
        List.exists_cons_of_ne_nil (splitAtEach_ne_nil isEnd rest)
      rw [hlines, consFirst] at hline
      intro a ha
      rcases List.mem_cons.mp hline with rfl | hmem
      · rcases List.mem_cons.mp ha with rfl | ha
        · exact ⟨List.mem_cons_self, by simpa using hb⟩
        · have hrest := ih (hlines ▸ List.mem_cons_self) a ha
          exact ⟨List.mem_cons_of_mem b hrest.1, hrest.2⟩
      · have hrest := ih (hlines ▸ List.mem_cons_of_mem first hmem) a ha
        exact ⟨List.mem_cons_of_mem b hrest.1, hrest.2⟩

theorem forall_beq_eq_false [DecidableEq α] {stop : α} {line : List α} (hstop : stop ∉ line) :
    ∀ a ∈ line, (a == stop) = false := by
  intro a ha
  rw [beq_eq_false_iff_ne]
  rintro rfl
  exact hstop ha

def endEach (stop : α) (lines : List (List α)) : List α := lines.flatMap (· ++ [stop])

@[simp]
theorem endEach_nil (stop : α) : endEach stop [] = [] := rfl

@[simp]
theorem endEach_cons (stop : α) (line : List α) (lines : List (List α)) :
    endEach stop (line :: lines) = line ++ stop :: endEach stop lines := by
  simp [endEach]

@[simp]
theorem endEach_append (stop : α) (front back : List (List α)) :
    endEach stop (front ++ back) = endEach stop front ++ endEach stop back := by
  simp [endEach]

theorem intercalate_concat (stop : α) (lines : List (List α)) (last : List α) :
    [stop].intercalate (lines ++ [last]) = endEach stop lines ++ last := by
  induction lines with
  | nil => simp
  | cons line lines ih =>
    rw [List.cons_append, List.intercalate_cons_of_ne_nil (by simp), ih]
    simp

theorem endEach_eq_intercalate (stop : α) {lines : List (List α)} (hne : lines ≠ []) :
    endEach stop lines = [stop].intercalate lines ++ [stop] := by
  obtain ⟨front, last, rfl⟩ := (List.eq_nil_or_concat' lines).resolve_left hne
  rw [intercalate_concat]
  simp

theorem splitAtEach_endEach_append {stop : α} (hstop : isEnd stop = true)
    {lines : List (List α)} (hlines : ∀ line ∈ lines, ∀ a ∈ line, isEnd a = false)
    (rest : List α) :
    splitAtEach isEnd (endEach stop lines ++ rest) = lines ++ splitAtEach isEnd rest := by
  simp only [splitAtEach_eq_splitOnP]
  induction lines with
  | nil => rfl
  | cons line lines ih =>
    have hline := hlines line List.mem_cons_self
    rw [endEach_cons, List.append_assoc, List.cons_append,
      List.splitOnP_append_cons_of_forall_mem hline stop hstop,
      ih fun other hother => hlines other (List.mem_cons_of_mem line hother), List.cons_append]

theorem splitAtEach_endEach_append_last {stop : α} (hstop : isEnd stop = true)
    {lines : List (List α)} {last : List α}
    (hlines : ∀ line ∈ lines ++ [last], ∀ a ∈ line, isEnd a = false) :
    splitAtEach isEnd (endEach stop lines ++ last) = lines ++ [last] := by
  have hlast : splitAtEach isEnd last = [last] := by
    rw [splitAtEach_eq_splitOnP]
    exact List.splitOnP_eq_singleton (hlines last (by simp))
  rw [splitAtEach_endEach_append hstop (fun line hline => hlines line (List.mem_append_left _ hline)),
    hlast]

theorem intercalate_splitAtEach [DecidableEq α] (stop : α) (text : List α) :
    [stop].intercalate (splitAtEach (· == stop) text) = text := by
  rw [splitAtEach_eq_splitOnP, ← List.splitOn_eq_splitOnP, List.intercalate_splitOn]

/-- Every text is its lines, each but the last with its end. -/
theorem exists_endEach_append [DecidableEq α] (stop : α) (text : List α) :
    ∃ lines last, splitAtEach (· == stop) text = lines ++ [last] ∧
      text = endEach stop lines ++ last := by
  have hne := splitAtEach_ne_nil (· == stop) text
  refine ⟨(splitAtEach (· == stop) text).dropLast, (splitAtEach (· == stop) text).getLast hne,
    (List.dropLast_append_getLast hne).symm, ?_⟩
  rw [← intercalate_concat, List.dropLast_append_getLast, intercalate_splitAtEach]

end Split

/-! ### Files -/

def IsFileLine (line : List UInt8) : Prop := Byte.lf ∉ line ∧ Byte.cr ∉ line

theorem cr_not_mem_unifyLineEndsFrom (afterCr : Bool) (bytes : List UInt8) :
    Byte.cr ∉ unifyLineEndsFrom afterCr bytes := by
  induction bytes generalizing afterCr with
  | nil => simp [unifyLineEndsFrom]
  | cons byte rest ih =>
    unfold unifyLineEndsFrom
    split
    · rw [List.mem_cons, not_or]
      exact ⟨by decide, ih true⟩
    · rename_i hbyte
      split
      · exact ih false
      · simp [ih, Ne.symm hbyte]

theorem unifyLineEndsFrom_of_cr_not_mem {bytes : List UInt8} (hcr : Byte.cr ∉ bytes) :
    unifyLineEndsFrom false bytes = bytes := by
  induction bytes with
  | nil => rfl
  | cons byte rest ih =>
    rw [List.mem_cons, not_or] at hcr
    rw [unifyLineEndsFrom, if_neg (Ne.symm hcr.1), Bool.and_false, if_neg Bool.false_ne_true,
      ih hcr.2]

theorem isFileLine_of_mem_byteLines {bytes line : List UInt8} (hline : line ∈ byteLines bytes) :
    IsFileLine line := by
  have hmem := forall_of_mem_splitAtEach hline
  constructor
  · intro hlf
    simpa using (hmem Byte.lf hlf).2
  · intro hcr
    exact cr_not_mem_unifyLineEndsFrom false bytes (hmem Byte.cr hcr).1

def trimEmpty (lines : List (List UInt8)) : List (List UInt8) := dropEndWhile List.isEmpty lines

/-- The lines that a file is written with: at least one, and only a lone one may be empty at the
end. -/
def writtenLines (lines : List (List UInt8)) : List (List UInt8) :=
  if trimEmpty lines = [] then [[]] else trimEmpty lines

theorem dropEndWhile_intercalate {lines : List (List UInt8)} (hlines : ∀ line ∈ lines, Byte.lf ∉ line) :
    dropEndWhile (· == Byte.lf) ([Byte.lf].intercalate lines) =
      [Byte.lf].intercalate (trimEmpty lines) := by
  induction lines using List.reverseRecOn with
  | nil => rfl
  | append_singleton lines last ih =>
    have ih := ih fun line hline => hlines line (List.mem_append_left _ hline)
    unfold trimEmpty
    cases last using List.reverseRecOn with
    | nil =>
      rw [dropEndWhile_append_of_forall lines (by simp), ← trimEmpty, ← ih, intercalate_concat,
        List.append_nil]
      cases lines using List.reverseRecOn with
      | nil => rfl
      | append_singleton lines line =>
        rw [intercalate_concat, endEach_append, endEach_cons, endEach_nil, ← List.append_assoc,
          dropEndWhile_append_of_forall _ (by simp)]
    | append_singleton line byte =>
      have hmem := hlines (line ++ [byte]) (by simp)
      simp only [List.mem_append, List.mem_singleton, not_or] at hmem
      have hbyte : ¬(byte == Byte.lf) = true := by simpa using Ne.symm hmem.2
      have hline : ¬(line ++ [byte]).isEmpty = true := by simp
      rw [intercalate_concat, ← List.append_assoc,
        dropEndWhile_concat (p := (· == Byte.lf)) _ hbyte, dropEndWhile_concat lines hline,
        intercalate_concat, List.append_assoc]

/-- A file is written line by line, each line with its end. -/
theorem joinByteLines_eq {lines : List (List UInt8)} (hlines : ∀ line ∈ lines, Byte.lf ∉ line) :
    joinByteLines lines = endEach Byte.lf (writtenLines lines) := by
  unfold joinByteLines writtenLines
  rw [dropEndWhile_intercalate hlines]
  by_cases hnil : trimEmpty lines = []
  · rw [if_pos hnil, hnil]
    rfl
  · rw [if_neg hnil, ← List.dropLast_append_getLast hnil, intercalate_concat]
    simp

theorem trimEmpty_subset {lines : List (List UInt8)} {line : List UInt8}
    (hline : line ∈ trimEmpty lines) : line ∈ lines :=
  (List.rdropWhile_prefix List.isEmpty lines).subset hline

theorem filterMap_trimEmpty {β : Type} {f : List UInt8 → Option β} (hnil : f [] = none)
    (lines : List (List UInt8)) : (trimEmpty lines).filterMap f = lines.filterMap f := by
  obtain ⟨tail, hlines, htail⟩ := exists_append_dropEndWhile List.isEmpty lines
  have htailNone : tail.filterMap f = [] := by
    rw [List.filterMap_eq_nil_iff]
    intro line hline
    rw [List.isEmpty_iff.mp (htail line hline), hnil]
  conv_rhs => rw [hlines, List.filterMap_append, htailNone, List.append_nil]
  rfl

theorem forall_mem_writtenLines {P : List UInt8 → Prop} (hnil : P [])
    {lines : List (List UInt8)} (hlines : ∀ line ∈ lines, P line) :
    ∀ line ∈ writtenLines lines, P line := by
  intro line hline
  unfold writtenLines at hline
  split at hline
  · exact List.mem_singleton.mp hline ▸ hnil
  · exact hlines line (trimEmpty_subset hline)

theorem splitAtEach_joinByteLines {lines : List (List UInt8)}
    (hlines : ∀ line ∈ lines, Byte.lf ∉ line) :
    splitAtEach (· == Byte.lf) (joinByteLines lines) = writtenLines lines ++ [[]] := by
  have hwritten := forall_mem_writtenLines (P := (Byte.lf ∉ ·)) (by simp) hlines
  have hclean : ∀ line ∈ writtenLines lines, ∀ a ∈ line, (a == Byte.lf) = false :=
    fun line hline => forall_beq_eq_false (hwritten line hline)
  have hsplit : splitAtEach (· == Byte.lf) (endEach Byte.lf (writtenLines lines) ++ []) =
      writtenLines lines ++ splitAtEach (· == Byte.lf) [] :=
    splitAtEach_endEach_append (by simp) hclean []
  rw [List.append_nil] at hsplit
  rw [joinByteLines_eq hlines, hsplit]
  rfl

theorem cr_not_mem_joinByteLines {lines : List (List UInt8)}
    (hlines : ∀ line ∈ lines, IsFileLine line) : Byte.cr ∉ joinByteLines lines := by
  rw [joinByteLines_eq fun line hline => (hlines line hline).1, endEach]
  intro hmem
  obtain ⟨line, hline, hmem⟩ := List.mem_flatMap.mp hmem
  have hclean := forall_mem_writtenLines (P := (Byte.cr ∉ ·)) (by simp)
    (fun line hline => (hlines line hline).2) line hline
  rcases List.mem_append.mp hmem with hmem | hmem
  · exact hclean hmem
  · exact absurd (List.mem_singleton.mp hmem) (by decide)

theorem byteLines_joinByteLines {lines : List (List UInt8)} (hlines : ∀ line ∈ lines, IsFileLine line) :
    byteLines (joinByteLines lines) = writtenLines lines ++ [[]] := by
  have hlf : ∀ line ∈ lines, Byte.lf ∉ line := fun line hline => (hlines line hline).1
  unfold byteLines unifyLineEnds
  rw [unifyLineEndsFrom_of_cr_not_mem (cr_not_mem_joinByteLines hlines),
    splitAtEach_joinByteLines hlf]

theorem trimEmpty_writtenLines_append (lines : List (List UInt8)) :
    trimEmpty (writtenLines lines ++ [[]]) = trimEmpty lines := by
  unfold trimEmpty
  rw [dropEndWhile_append_of_forall _ (by simp), writtenLines]
  split
  · rename_i hnil
    exact hnil.symm
  · exact List.rdropWhile_idempotent List.isEmpty lines

theorem joinByteLines_congr {lines lines' : List (List UInt8)}
    (hlines : ∀ line ∈ lines, Byte.lf ∉ line) (hlines' : ∀ line ∈ lines', Byte.lf ∉ line)
    (htrim : trimEmpty lines = trimEmpty lines') : joinByteLines lines = joinByteLines lines' := by
  rw [joinByteLines_eq hlines, joinByteLines_eq hlines', writtenLines, writtenLines, htrim]

end EnvFill.Text
