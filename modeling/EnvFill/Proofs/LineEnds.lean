import EnvFill.EnvFile.Line
import EnvFill.Proofs.SettingLine

/-!
# Line ends

Where every carriage return comes before a line feed, the lines of a file are the lines of its text,
up to blanks at their ends. So nothing that is looked for in either depends on how lines end.
-/

namespace EnvFill.Text

/-- The texts differ only in carriage returns that the second has before line feeds. -/
inductive SameLines : List Char → List Char → Prop where
  | nil : SameLines [] []
  | cons {c : Char} {text text' : List Char} (hc : c ≠ '\n') (hsame : SameLines text text') :
      SameLines (c :: text) (c :: text')
  | lf {text text' : List Char} (hsame : SameLines text text') :
      SameLines ('\n' :: text) ('\n' :: text')
  | crlf {text text' : List Char} (hsame : SameLines text text') :
      SameLines ('\n' :: text) ('\r' :: '\n' :: text')

section SameLines

variable {text text' back : List Char}

theorem SameLines.refl (text : List Char) : SameLines text text := by
  induction text with
  | nil => exact .nil
  | cons c text ih =>
    by_cases hc : c = '\n'
    · subst hc
      exact .lf ih
    · exact .cons hc ih

theorem SameLines.append {other other' : List Char} (hsame : SameLines text text')
    (hother : SameLines other other') : SameLines (text ++ other) (text' ++ other') := by
  induction hsame with
  | nil => exact hother
  | cons hc _ ih => exact .cons hc ih
  | lf _ ih => exact .lf ih
  | crlf _ ih => exact .crlf ih

theorem SameLines.exists_append (hsame : SameLines (front ++ back) text) :
    ∃ front' back', text = front' ++ back' ∧ SameLines front front' ∧ SameLines back back' := by
  induction front generalizing text with
  | nil => exact ⟨[], text, rfl, .nil, hsame⟩
  | cons c front ih =>
    cases hsame with
    | cons hc hsame =>
      obtain ⟨front', back', rfl, hfront, hback⟩ := ih hsame
      exact ⟨c :: front', back', rfl, .cons hc hfront, hback⟩
    | lf hsame =>
      obtain ⟨front', back', rfl, hfront, hback⟩ := ih hsame
      exact ⟨'\n' :: front', back', rfl, .lf hfront, hback⟩
    | crlf hsame =>
      obtain ⟨front', back', rfl, hfront, hback⟩ := ih hsame
      exact ⟨'\r' :: '\n' :: front', back', rfl, .crlf hfront, hback⟩

/-- The second text may be cut anywhere but after a carriage return that is added to the first. -/
theorem SameLines.exists_append_right {front' back' : List Char} (hsame : SameLines text (front' ++ back'))
    (hcut : front'.getLast? = some '\r' → back'.head? ≠ some '\n') :
    ∃ front back, text = front ++ back ∧ SameLines front front' ∧ SameLines back back' := by
  generalize htext : front' ++ back' = text' at hsame
  have htail : ∀ {c : Char} {front' : List Char},
      ((c :: front').getLast? = some '\r' → back'.head? ≠ some '\n') →
        front'.getLast? = some '\r' → back'.head? ≠ some '\n' := by
    intro c front' hcut hlast
    exact hcut (by rw [List.getLast?_cons, hlast, Option.getD_some])
  induction hsame generalizing front' with
  | nil =>
    obtain ⟨rfl, rfl⟩ := List.append_eq_nil_iff.mp htext
    exact ⟨[], [], rfl, .nil, .nil⟩
  | @cons c text text' hc hsame ih =>
    cases front' with
    | nil =>
      obtain rfl : back' = c :: text' := htext
      exact ⟨[], c :: text, rfl, .nil, .cons hc hsame⟩
    | cons d front' =>
      obtain ⟨rfl, hrest⟩ := List.cons.inj htext
      obtain ⟨front, back, rfl, hfront, hback⟩ := ih (htail hcut) hrest
      exact ⟨d :: front, back, rfl, .cons hc hfront, hback⟩
  | @lf text text' hsame ih =>
    cases front' with
    | nil =>
      obtain rfl : back' = '\n' :: text' := htext
      exact ⟨[], '\n' :: text, rfl, .nil, .lf hsame⟩
    | cons d front' =>
      obtain ⟨rfl, hrest⟩ := List.cons.inj htext
      obtain ⟨front, back, rfl, hfront, hback⟩ := ih (htail hcut) hrest
      exact ⟨'\n' :: front, back, rfl, .lf hfront, hback⟩
  | @crlf text text' hsame ih =>
    match front', htext, hcut with
    | [], htext, _ =>
      obtain rfl : back' = '\r' :: '\n' :: text' := htext
      exact ⟨[], '\n' :: text, rfl, .nil, .crlf hsame⟩
    | [d], htext, hcut =>
      obtain ⟨rfl, rfl⟩ := List.cons.inj htext
      exact absurd rfl (hcut rfl)
    | d :: e :: front', htext, hcut =>
      obtain ⟨rfl, hnext⟩ := List.cons.inj htext
      obtain ⟨rfl, hrest⟩ := List.cons.inj hnext
      obtain ⟨front, back, rfl, hfront, hback⟩ := ih (htail (htail hcut)) hrest
      exact ⟨'\n' :: front, back, rfl, .crlf hfront, hback⟩

theorem SameLines.lf_mem_iff (hsame : SameLines text text') : '\n' ∈ text' ↔ '\n' ∈ text := by
  induction hsame with
  | nil => exact Iff.rfl
  | cons _ _ ih => rw [List.mem_cons, List.mem_cons, ih]
  | lf => simp
  | crlf => simp

theorem SameLines.eq_of_lf_not_mem (hsame : SameLines text text') (hlf : '\n' ∉ text) :
    text' = text := by
  induction hsame with
  | nil => rfl
  | cons hc _ ih => rw [ih fun hmem => hlf (List.mem_cons_of_mem _ hmem)]
  | lf => simp at hlf
  | crlf => simp at hlf

theorem SameLines.eq_nil_iff (hsame : SameLines text text') : text' = [] ↔ text = [] := by
  cases hsame with
  | nil => exact Iff.rfl
  | cons | lf | crlf => exact iff_of_false (List.cons_ne_nil _ _) (List.cons_ne_nil _ _)

theorem SameLines.getLast?_eq (hsame : SameLines text text') : text'.getLast? = text.getLast? := by
  have hcons : ∀ {c : Char} {text text' : List Char}, SameLines text text' →
      text'.getLast? = text.getLast? → (c :: text').getLast? = (c :: text).getLast? := by
    intro c text text' hsame hlast
    rw [List.getLast?_cons, List.getLast?_cons, hlast]
  induction hsame with
  | nil => rfl
  | cons hc hsame ih => exact hcons hsame ih
  | lf hsame ih => exact hcons hsame ih
  | crlf hsame ih => rw [List.getLast?_cons_cons, hcons hsame ih]

/-- What no line end has is had by the first characters of both or of neither. -/
theorem SameLines.head?_any_eq (hsame : SameLines text text') {p : Char → Bool} (hlf : p '\n' = false)
    (hcr : p '\r' = false) : text'.head?.any p = text.head?.any p := by
  cases hsame with
  | nil => rfl
  | cons => rfl
  | lf => rfl
  | crlf => simp [hlf, hcr]

theorem SameLines.forall_isBlank_iff (hsame : SameLines text text') :
    (∀ c ∈ text', isBlank c = true) ↔ ∀ c ∈ text, isBlank c = true := by
  have hcr : isBlank '\r' = true := by decide
  induction hsame with
  | nil => exact Iff.rfl
  | cons _ _ ih =>
    rw [List.forall_mem_cons, List.forall_mem_cons]
    exact and_congr_right fun _ => ih
  | lf _ ih =>
    rw [List.forall_mem_cons, List.forall_mem_cons]
    exact and_congr_right fun _ => ih
  | crlf _ ih =>
    rw [List.forall_mem_cons, List.forall_mem_cons, List.forall_mem_cons, and_iff_right hcr]
    exact and_congr_right fun _ => ih

end SameLines

/-! ### Lines that end in a carriage return -/

def IsSameLine (line line' : List Char) : Prop := line' = line ∨ line' = line ++ ['\r']

theorem IsSameLine.refl (line : List Char) : IsSameLine line line := .inl rfl

theorem forall₂_consFirst {first second : List (List Char)}
    (hlines : List.Forall₂ IsSameLine first second) (c : Char) :
    List.Forall₂ IsSameLine (consFirst c first) (consFirst c second) := by
  cases hlines with
  | nil => exact .cons (.refl [c]) .nil
  | cons hline hrest =>
    refine .cons ?_ hrest
    rcases hline with rfl | rfl
    · exact .inl rfl
    · exact .inr rfl

theorem lines_cons {c : Char} (hc : c ≠ '\n') (text : List Char) :
    lines (c :: text) = consFirst c (lines text) := by
  rw [lines, splitAtEach, if_neg (by simpa using hc), lines]

/-- The lines of the two texts, one by one. -/
theorem SameLines.forall₂_lines {text text' : List Char} (hsame : SameLines text text') :
    List.Forall₂ IsSameLine (lines text) (lines text') := by
  induction hsame with
  | nil => exact .cons (.refl []) .nil
  | cons hc _ ih =>
    rw [lines_cons hc, lines_cons hc]
    exact forall₂_consFirst ih _
  | lf _ ih => exact .cons (.refl []) ih
  | crlf _ ih => exact .cons (.inr rfl) ih

/-- What is read from each line alone is not changed by carriage returns that are not seen there. -/
theorem filterMap_eq_of_forall₂ {β : Type} {f : List Char → Option β}
    (hf : ∀ line, f (line ++ ['\r']) = f line) {first second : List (List Char)}
    (hlines : List.Forall₂ IsSameLine first second) : second.filterMap f = first.filterMap f := by
  induction hlines with
  | nil => rfl
  | cons hline _ ih =>
    rcases hline with rfl | rfl
    · rw [List.filterMap_cons, List.filterMap_cons, ih]
    · rw [List.filterMap_cons, List.filterMap_cons, hf, ih]

theorem strip_append_cr (line : List Char) : strip (line ++ ['\r']) = strip line :=
  strip_append_of_blank line (by simp [IsBlankLetter, Character.satisfies, Character.char?, isBlank])

theorem split?_append_cr (line : List Char) :
    EnvFile.Line.split? (line ++ ['\r']) = EnvFile.Line.split? line := by
  rw [EnvFile.Line.split?, EnvFile.Line.split?, strip_append_cr]

theorem key?_append_cr (line : List Char) :
    EnvFile.Line.key? (line ++ ['\r']) = EnvFile.Line.key? line := by
  rw [EnvFile.Line.key?, EnvFile.Line.key?, split?_append_cr]

/-- The lines of both texts set the same keys. -/
theorem SameLines.filterMap_key?_lines {text text' : List Char} (hsame : SameLines text text') :
    (lines text').filterMap EnvFile.Line.key? = (lines text).filterMap EnvFile.Line.key? :=
  filterMap_eq_of_forall₂ key?_append_cr hsame.forall₂_lines

/-! ### Files -/

/-- Every carriage return comes before a line feed. -/
def HasPairedReturns (bytes : List UInt8) : Prop :=
  ∀ front rest, front ++ Byte.cr :: rest = bytes → rest.head? = some Byte.lf

variable {bytes front rest : List UInt8}

theorem hasPairedReturns_of_cr_not_mem (hcr : Byte.cr ∉ bytes) : HasPairedReturns bytes := by
  rintro front rest rfl
  simp at hcr

theorem hasPairedReturns_cons_iff {byte : UInt8} : HasPairedReturns (byte :: bytes) ↔
    (byte = Byte.cr → bytes.head? = some Byte.lf) ∧ HasPairedReturns bytes := by
  constructor
  · intro hpaired
    refine ⟨?_, fun front rest hbytes => hpaired (byte :: front) rest (congrArg (byte :: ·) hbytes)⟩
    rintro rfl
    exact hpaired [] bytes rfl
  · rintro ⟨hfirst, hpaired⟩ front rest hbytes
    cases front with
    | nil =>
      obtain ⟨rfl, rfl⟩ := List.cons.inj hbytes
      exact hfirst rfl
    | cons first front =>
      obtain ⟨-, hrest⟩ := List.cons.inj hbytes
      exact hpaired front rest hrest

instance decidableHasPairedReturns : (bytes : List UInt8) → Decidable (HasPairedReturns bytes)
  | [] => .isTrue (hasPairedReturns_of_cr_not_mem List.not_mem_nil)
  | _ :: rest =>
    have := decidableHasPairedReturns rest
    decidable_of_iff _ hasPairedReturns_cons_iff.symm

/-- A file is cut after its first carriage return, if it has one. -/
theorem pairedReturns_induction {motive : List UInt8 → Prop}
    (free : ∀ bytes, Byte.cr ∉ bytes → motive bytes)
    (crlf : ∀ front rest, Byte.cr ∉ front → motive rest →
      motive (front ++ Byte.cr :: Byte.lf :: rest))
    {bytes : List UInt8} (hpaired : HasPairedReturns bytes) : motive bytes := by
  induction hlength : bytes.length using Nat.strong_induction_on generalizing bytes with
  | _ length ih =>
    by_cases hcr : Byte.cr ∈ bytes
    · obtain ⟨front, back, rfl, hfront⟩ := List.eq_append_cons_of_mem hcr
      have hhead := hpaired front back rfl
      cases back with
      | nil => simp at hhead
      | cons byte rest =>
        obtain rfl : byte = Byte.lf := by simpa using hhead
        apply crlf front rest hfront
        refine ih rest.length ?_ ?_ rfl
        · rw [← hlength]
          simp
          omega
        · rintro inner outer rfl
          exact hpaired (front ++ Byte.cr :: Byte.lf :: inner) outer (by simp)
    · exact free bytes hcr

theorem unifyLineEnds_of_cr_not_mem (hcr : Byte.cr ∉ bytes) : unifyLineEnds bytes = bytes :=
  unifyLineEndsFrom_of_cr_not_mem hcr

theorem unifyLineEnds_append (hfront : Byte.cr ∉ front) (rest : List UInt8) :
    unifyLineEnds (front ++ rest) = front ++ unifyLineEnds rest := by
  unfold unifyLineEnds
  induction front with
  | nil => rfl
  | cons byte front ih =>
    rw [List.mem_cons, not_or] at hfront
    rw [List.cons_append, unifyLineEndsFrom, if_neg (Ne.symm hfront.1), Bool.and_false,
      if_neg Bool.false_ne_true, ih hfront.2, List.cons_append]

theorem unifyLineEndsFrom_of_head? {rest : List UInt8} (hrest : rest.head? ≠ some Byte.lf) (afterCr : Bool) :
    unifyLineEndsFrom afterCr rest = unifyLineEnds rest := by
  cases rest with
  | nil => rfl
  | cons byte rest =>
    have hbyte : byte ≠ Byte.lf := by simpa using hrest
    rw [unifyLineEnds, unifyLineEndsFrom, unifyLineEndsFrom]
    simp [hbyte]

/-- No line end stands across a place that no line feed stands behind. -/
theorem unifyLineEnds_append_of_head? (front : List UInt8) {rest : List UInt8}
    (hrest : rest.head? ≠ some Byte.lf) :
    unifyLineEnds (front ++ rest) = unifyLineEnds front ++ unifyLineEnds rest := by
  have hall : ∀ afterCr, unifyLineEndsFrom afterCr (front ++ rest) =
      unifyLineEndsFrom afterCr front ++ unifyLineEnds rest := by
    induction front with
    | nil => exact unifyLineEndsFrom_of_head? hrest
    | cons byte front ih =>
      intro afterCr
      rw [List.cons_append, unifyLineEndsFrom, unifyLineEndsFrom]
      split
      · rw [ih, List.cons_append]
      · split
        · rw [ih]
        · rw [ih, List.cons_append]
  exact hall false

theorem unifyLineEnds_crlf (rest : List UInt8) :
    unifyLineEnds (Byte.cr :: Byte.lf :: rest) = Byte.lf :: unifyLineEnds rest := rfl

/-- The text of a file, and the same with its line ends unified. -/
theorem sameLines_decodeLossy (hpaired : HasPairedReturns bytes) :
    SameLines (Utf8.decodeLossy (unifyLineEnds bytes)) (Utf8.decodeLossy bytes) := by
  apply pairedReturns_induction
    (motive := fun bytes =>
      SameLines (Utf8.decodeLossy (unifyLineEnds bytes)) (Utf8.decodeLossy bytes)) _ _ hpaired
  · intro bytes hcr
    rw [unifyLineEnds_of_cr_not_mem hcr]
    exact SameLines.refl _
  · intro front rest hfront ih
    rw [unifyLineEnds_append hfront, unifyLineEnds_crlf, Utf8.decodeLossy_append_ascii front (by decide),
      Utf8.decodeLossy_append_ascii front (by decide)]
    apply (SameLines.refl (Utf8.decodeLossy front)).append
    have hascii : Byte.lf < 128 := by decide
    have hlf := Utf8.decodeLossy_append_ascii [] hascii rest
    rw [List.nil_append, Utf8.decodeLossy_nil, List.nil_append] at hlf
    rw [hlf]
    exact .crlf ih

/-- Where an ASCII byte, and nothing else, is read as its character, ended lines are read one by one. -/
theorem reading_endEach_append {γ : Type} [Character γ] {byte : UInt8} {read : List UInt8 → List γ}
    (happend : ∀ front rest,
      read (front ++ byte :: rest) = read front ++ Character.ofChar (Char.ofUInt8 byte) :: read rest)
    (lines : List (List UInt8)) (last : List UInt8) :
    read (endEach byte lines ++ last) =
      endEach (Character.ofChar (Char.ofUInt8 byte)) (lines.map read) ++ read last := by
  induction lines with
  | nil => rfl
  | cons line lines ih =>
    rw [endEach_cons, List.append_assoc, List.cons_append, happend, ih, List.map_cons, endEach_cons,
      List.append_assoc, List.cons_append]

/-- There the pieces between the bytes are read as the pieces between the characters. -/
theorem splitAtEach_reading {γ : Type} [DecidableEq γ] [Character γ] {byte : UInt8}
    {read : List UInt8 → List γ}
    (hmem : ∀ bytes, Character.ofChar (Char.ofUInt8 byte) ∈ read bytes ↔ byte ∈ bytes)
    (happend : ∀ front rest,
      read (front ++ byte :: rest) = read front ++ Character.ofChar (Char.ofUInt8 byte) :: read rest)
    (bytes : List UInt8) :
    splitAtEach (· == Character.ofChar (Char.ofUInt8 byte)) (read bytes) =
      (splitAtEach (· == byte) bytes).map read := by
  obtain ⟨front, last, hlines, hbytes⟩ := exists_endEach_append byte bytes
  have hclean : ∀ line ∈ front ++ [last], ∀ a ∈ read line,
      (a == Character.ofChar (Char.ofUInt8 byte)) = false := by
    intro line hline
    rw [← hlines] at hline
    refine forall_beq_eq_false fun hmark => ?_
    have hbyte := (forall_of_mem_splitAtEach hline byte ((hmem line).mp hmark)).2
    simp at hbyte
  rw [hlines, List.map_append, List.map_singleton]
  conv_lhs => rw [hbytes]
  rw [reading_endEach_append happend]
  apply splitAtEach_endEach_append_last (by simp)
  rwa [← List.map_singleton, ← List.map_append, List.forall_mem_map]

theorem decodeLossy_endEach_append (lines : List (List UInt8)) (last : List UInt8) :
    Utf8.decodeLossy (endEach Byte.lf lines ++ last) =
      endEach '\n' (lines.map Utf8.decodeLossy) ++ Utf8.decodeLossy last :=
  reading_endEach_append (fun front => Utf8.decodeLossy_append_ascii front (by decide)) lines last

theorem lines_decodeLossy_unifyLineEnds (bytes : List UInt8) :
    lines (Utf8.decodeLossy (unifyLineEnds bytes)) = (byteLines bytes).map Utf8.decodeLossy := by
  have hascii : Byte.lf < 128 := by decide
  exact splitAtEach_reading (fun _ => Utf8.mem_decodeLossy_iff hascii)
    (fun front => Utf8.decodeLossy_append_ascii front hascii) _

/-- The keys that the lines of a file set. -/
theorem filterMap_key?_decodeLossy (hpaired : HasPairedReturns bytes) :
    (lines (Utf8.decodeLossy bytes)).filterMap EnvFile.Line.key? =
      ((byteLines bytes).map Utf8.decodeLossy).filterMap EnvFile.Line.key? := by
  rw [(sameLines_decodeLossy hpaired).filterMap_key?_lines, lines_decodeLossy_unifyLineEnds]

end EnvFill.Text
