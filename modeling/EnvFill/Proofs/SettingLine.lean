import EnvFill.EnvFile.Edit
import EnvFill.Proofs.Decoding
import EnvFill.Proofs.Lines
import EnvFill.Proofs.WrittenValue

/-!
# The setting that a line makes

Lines are edited by the key of their glyphs and read by the key of their characters. The two agree
where the bytes before the first `=` are text, and both see in a written line what was written.
-/

namespace EnvFill.Text.Utf8

theorem decodeStrict?_eq_some_iff {bytes : List UInt8} {text : List Char} :
    decodeStrict? bytes = some text ↔ decode bytes = text.map .char := by
  unfold decodeStrict?
  generalize decode bytes = glyphs
  induction glyphs generalizing text with
  | nil => cases text <;> simp
  | cons glyph rest ih =>
    cases glyph with
    | stray byte => cases text <;> simp [Character.char?]
    | char c =>
      have hchar : Character.char? (Glyph.char c) = some c := rfl
      rw [List.mapM_cons, hchar]
      cases text with
      | nil => cases rest.mapM Character.char? <;> simp
      | cons d text =>
        have ih := @ih text
        cases hrest : rest.mapM Character.char? <;> simp_all

theorem decodeStrict?_eq_some_iff_encodeText {bytes : List UInt8} {text : List Char} :
    decodeStrict? bytes = some text ↔ bytes = encodeText text := by
  rw [decodeStrict?_eq_some_iff]
  constructor
  · intro htext
    rw [← encode_decode bytes, htext, encode, List.flatMap_map]
    rfl
  · rintro rfl
    exact decode_encodeText text

theorem decodeLossy_of_strict {bytes : List UInt8} {text : List Char}
    (htext : decodeStrict? bytes = some text) : decodeLossy bytes = text := by
  rw [decodeLossy, decodeStrict?_eq_some_iff.mp htext, List.filterMap_map]
  exact List.filterMap_some

theorem char_mem_decode_iff {byte : UInt8} (hascii : byte < 128) {bytes : List UInt8} :
    Glyph.char (Char.ofUInt8 byte) ∈ decode bytes ↔ byte ∈ bytes := by
  constructor
  · intro hmem
    rw [← encode_decode bytes]
    refine List.mem_flatMap.mpr ⟨_, hmem, ?_⟩
    rw [encodeGlyph, utf8EncodeChar_ofUInt8 hascii]
    exact List.mem_singleton_self byte
  · intro hmem
    obtain ⟨front, rest, rfl⟩ := List.append_of_mem hmem
    simp [decode_append_ascii front hascii]

theorem mem_decodeLossy_iff {byte : UInt8} (hascii : byte < 128) {bytes : List UInt8} :
    Char.ofUInt8 byte ∈ decodeLossy bytes ↔ byte ∈ bytes := by
  rw [← char_mem_decode_iff hascii, decodeLossy, List.mem_filterMap]
  constructor
  · rintro ⟨glyph, hmem, hchar⟩
    rwa [Character.char?_eq_some_iff.mp hchar] at hmem
  · intro hmem
    exact ⟨_, hmem, rfl⟩

theorem mem_encodeText_iff {byte : UInt8} (hascii : byte < 128) {text : List Char} :
    byte ∈ encodeText text ↔ Char.ofUInt8 byte ∈ text := by
  rw [← mem_decodeLossy_iff hascii, decodeLossy_encodeText]

/-- Where an ASCII byte, and nothing else, is read as its character, a cut at the byte is a cut at the
character. -/
theorem cutAtFirst_reading {γ : Type} [Character γ] {byte : UInt8} {read : List UInt8 → List γ}
    (hmem : ∀ bytes, Character.ofChar (Char.ofUInt8 byte) ∈ read bytes ↔ byte ∈ bytes)
    (happend : ∀ front rest,
      read (front ++ byte :: rest) = read front ++ Character.ofChar (Char.ofUInt8 byte) :: read rest)
    (bytes : List UInt8) :
    cutAtFirst (Character.is (Char.ofUInt8 byte)) (read bytes) =
      (cutAtFirst (· == byte) bytes).map fun parts => (read parts.1, read parts.2) := by
  have hfree : ∀ front : List UInt8, (∀ a ∈ front, (a == byte) = false) →
      ∀ c ∈ read front, Character.is (Char.ofUInt8 byte) c = false := by
    intro front hfront c hc
    by_contra his
    rw [Bool.not_eq_false] at his
    rw [Character.eq_ofChar_of_is his] at hc
    simpa using hfront byte ((hmem front).mp hc)
  cases hcut : cutAtFirst (· == byte) bytes with
  | none =>
    rw [Option.map_none, cutAtFirst_eq_none_iff]
    exact hfree bytes (cutAtFirst_eq_none_iff.mp hcut)
  | some parts =>
    obtain ⟨mark, rfl, hmark, hbefore⟩ := exists_of_cutAtFirst hcut
    obtain rfl : mark = byte := by simpa using hmark
    rw [happend parts.1 parts.2]
    exact cutAtFirst_append_cons (hfree parts.1 hbefore) (by simp)

theorem cutAtFirst_decode {byte : UInt8} (hascii : byte < 128) (bytes : List UInt8) :
    cutAtFirst (Character.is (Char.ofUInt8 byte)) (decode bytes) =
      (cutAtFirst (· == byte) bytes).map fun parts => (decode parts.1, decode parts.2) :=
  cutAtFirst_reading (fun _ => char_mem_decode_iff hascii)
    (fun front rest => decode_append_ascii front hascii rest) bytes

theorem cutAtFirst_decodeLossy {byte : UInt8} (hascii : byte < 128) (bytes : List UInt8) :
    cutAtFirst (Character.is (Char.ofUInt8 byte)) (decodeLossy bytes) =
      (cutAtFirst (· == byte) bytes).map fun parts =>
        (decodeLossy parts.1, decodeLossy parts.2) :=
  cutAtFirst_reading (fun _ => mem_decodeLossy_iff hascii)
    (fun front rest => decodeLossy_append_ascii front hascii rest) bytes

end EnvFill.Text.Utf8

namespace EnvFill.EnvFile.Line

open Text

variable {line key raw : List Char}

/-- A key that is read as it stands before an `=`: not empty, without `=` and without blanks around it,
and no comment. -/
structure IsKey (key : List Char) : Prop where
  ne_nil : key ≠ []
  equals_not_mem : '=' ∉ key
  strip_eq : strip key = key
  not_comment : key.head? ≠ some '#'

instance : DecidablePred IsKey := fun key =>
  decidable_of_iff (key ≠ [] ∧ '=' ∉ key ∧ strip key = key ∧ key.head? ≠ some '#')
    ⟨fun ⟨h₁, h₂, h₃, h₄⟩ => ⟨h₁, h₂, h₃, h₄⟩, fun ⟨h₁, h₂, h₃, h₄⟩ => ⟨h₁, h₂, h₃, h₄⟩⟩

theorem IsKey.keyIn?_eq (hkey : IsKey key) : keyIn? key = some key := by
  apply keyIn?_eq_some_iff.mpr
  refine ⟨hkey.strip_eq, hkey.ne_nil, fun first hfirst => ?_⟩
  rw [Value.is_char, beq_eq_false_iff_ne]
  rintro rfl
  exact hkey.not_comment hfirst

/-- A line that begins with a key and an `=` sets the key to the rest. -/
theorem IsKey.split?_eq (hkey : IsKey key) (text : List Char) :
    split? (key ++ '=' :: text) = some (key, strip text) := by
  have hcut : cutAtFirst (Character.is '=') (key ++ '=' :: text) = some (key, text) := by
    apply cutAtFirst_append_cons
    · intro c hc
      rw [Value.is_char, beq_eq_false_iff_ne]
      exact ne_of_mem_of_not_mem hc hkey.equals_not_mem
    · rfl
  rw [Line.split?_eq, hcut, Option.bind_some, hkey.keyIn?_eq, Option.map_some]

/-- What a line sets stands around its first `=`. -/
theorem exists_of_split? (hsplit : split? line = some (key, raw)) :
    ∃ before after, line = before ++ '=' :: after ∧ '=' ∉ before ∧ keyIn? before = some key ∧
      strip after = raw := by
  rw [Line.split?_eq] at hsplit
  obtain ⟨⟨before, after⟩, hcut, hparts⟩ := Option.bind_eq_some_iff.mp hsplit
  obtain ⟨text, htext, hpair⟩ := Option.map_eq_some_iff.mp hparts
  obtain ⟨rfl, hraw⟩ := Prod.mk.inj hpair
  obtain ⟨mark, rfl, hmark, hbefore⟩ := exists_of_cutAtFirst hcut
  obtain rfl : mark = '=' := Character.eq_ofChar_of_is hmark
  refine ⟨before, after, rfl, fun hmem => ?_, htext, hraw⟩
  exact absurd (hbefore _ hmem) (by decide)

/-- What is read as a key is one. -/
theorem isKey_of_split? (hsplit : split? line = some (key, raw)) : IsKey key := by
  obtain ⟨before, -, -, hequals, hkey, -⟩ := exists_of_split? hsplit
  obtain ⟨rfl, hne, hcomment⟩ := keyIn?_eq_some_iff.mp hkey
  refine ⟨hne, fun hmem => hequals (mem_of_mem_strip hmem), strip_strip before, fun hhead => ?_⟩
  exact absurd (hcomment '#' hhead) (by decide)

/-- The key and the value of a line are made of its characters. -/
theorem mem_of_split? {c : Char} (hsplit : split? line = some (key, raw)) (hc : c ∈ key ∨ c ∈ raw) :
    c ∈ line := by
  obtain ⟨before, after, rfl, -, hkey, rfl⟩ := exists_of_split? hsplit
  obtain ⟨rfl, -⟩ := keyIn?_eq_some_iff.mp hkey
  rcases hc with hc | hc
  · exact List.mem_append_left _ (mem_of_mem_strip hc)
  · exact List.mem_append_right _ (List.mem_cons_of_mem _ (mem_of_mem_strip hc))

end EnvFill.EnvFile.Line

namespace EnvFill.EnvFile

open Text

def equalsByte : UInt8 := 0x3D

/-- A line in which only text stands before the first `=`, if it has one. -/
def HasPlainKey (line : List UInt8) : Prop :=
  ∀ parts ∈ cutAtFirst (· == equalsByte) line, (Utf8.decodeStrict? parts.1).isSome

/-- A key that is written and read as it is: not empty, on one line, without `=` and without blanks
around it, and no comment. -/
structure IsWritableKey (key : String) : Prop where
  ne_nil : key.toList ≠ []
  equals_not_mem : '=' ∉ key.toList
  cr_not_mem : '\r' ∉ key.toList
  lf_not_mem : '\n' ∉ key.toList
  strip_eq : strip key.toList = key.toList
  not_comment : key.toList.head? ≠ some '#'

instance : DecidablePred IsWritableKey := fun key =>
  decidable_of_iff
    (key.toList ≠ [] ∧ '=' ∉ key.toList ∧ '\r' ∉ key.toList ∧ '\n' ∉ key.toList ∧
      strip key.toList = key.toList ∧ key.toList.head? ≠ some '#')
    ⟨fun ⟨h₁, h₂, h₃, h₄, h₅, h₆⟩ => ⟨h₁, h₂, h₃, h₄, h₅, h₆⟩,
      fun ⟨h₁, h₂, h₃, h₄, h₅, h₆⟩ => ⟨h₁, h₂, h₃, h₄, h₅, h₆⟩⟩

theorem IsWritableKey.of_forall {key : String} (hne : key.toList ≠ [])
    (hchars : ∀ c ∈ key.toList, isBlank c = false ∧ c ≠ '=' ∧ c ≠ '#') : IsWritableKey key := by
  have hblank : ∀ c ∈ key.toList, ¬IsBlankLetter c := by
    intro c hc hblank
    rw [IsBlankLetter, Value.satisfies_char, (hchars c hc).1] at hblank
    exact Bool.noConfusion hblank
  have hend : ∀ {c : Char}, isBlank c = true → c ∉ key.toList :=
    fun hc hmem => Bool.noConfusion ((hchars _ hmem).1.symm.trans hc)
  refine ⟨hne, fun hmem => (hchars _ hmem).2.1 rfl, hend (by decide), hend (by decide), ?_, ?_⟩
  · exact strip_eq_self (fun c hc => hblank c (List.mem_of_head? hc))
      (fun c hc => hblank c (List.mem_of_getLast? hc))
  · exact fun hhead => (hchars _ (List.mem_of_head? hhead)).2.2 rfl

def settingOf? (line : List UInt8) : Option (String × String) :=
  (Line.split? (Utf8.decodeLossy line)).map fun (key, value) =>
    (String.ofList key, String.ofList (Value.unquote value))

theorem ofBytes_eq (bytes : List UInt8) :
    Entries.ofBytes bytes = OrderedMap.ofList ((byteLines bytes).filterMap settingOf?) := by
  unfold Entries.ofBytes Entries.ofLines
  rw [List.filterMap_map, List.map_filterMap]
  rfl

theorem glyphs_injective : Function.Injective glyphs := by
  intro key other heq
  have hchars : Function.Injective Glyph.char := fun _ _ hchar => Glyph.char.inj hchar
  exact String.toList_injective (List.map_injective_iff.mpr hchars heq)

theorem glyphs_ofList (text : List Char) : glyphs (String.ofList text) = text.map .char := by
  rw [glyphs, String.toList_ofList]

theorem keyOf?_eq_bind (line : List UInt8) :
    keyOf? line = (cutAtFirst (· == equalsByte) line).bind fun parts =>
      Line.keyIn? (Utf8.decode parts.1) := by
  have hascii : equalsByte < 128 := by decide
  have hcut := Utf8.cutAtFirst_decode hascii line
  unfold keyOf? Line.key?
  rw [Line.split?_eq, show '=' = Char.ofUInt8 equalsByte by decide, hcut]
  cases cutAtFirst (· == equalsByte) line with
  | none => rfl
  | some parts => simp [Function.comp_def]

theorem settingOf?_eq_bind (line : List UInt8) :
    settingOf? line = (cutAtFirst (· == equalsByte) line).bind fun parts =>
      (Line.keyIn? (Utf8.decodeLossy parts.1)).map fun key =>
        (String.ofList key,
          String.ofList (Value.unquote (strip (Utf8.decodeLossy parts.2)))) := by
  have hascii : equalsByte < 128 := by decide
  have hcut := Utf8.cutAtFirst_decodeLossy hascii line
  unfold settingOf?
  rw [Line.split?_eq, show '=' = Char.ofUInt8 equalsByte by decide, hcut]
  cases cutAtFirst (· == equalsByte) line with
  | none => rfl
  | some parts => simp [Function.comp_def]

/-- **One key, read twice.** Editing and reading agree on the key of a line. -/
theorem keyOf?_eq_of_plainKey {line : List UInt8} (hplain : HasPlainKey line) :
    keyOf? line = (settingOf? line).map fun setting => glyphs setting.1 := by
  rw [keyOf?_eq_bind, settingOf?_eq_bind]
  cases hcut : cutAtFirst (· == equalsByte) line with
  | none => rfl
  | some parts =>
    obtain ⟨text, htext⟩ := Option.isSome_iff_exists.mp (hplain parts hcut)
    rw [Option.bind_some, Option.bind_some, Utf8.decodeStrict?_eq_some_iff.mp htext,
      Utf8.decodeLossy_of_strict htext, Line.keyIn?_map (f := Glyph.char) (fun _ => rfl), Option.map_map]
    congr 1
    funext key
    exact (glyphs_ofList key).symm

theorem settingOf?_of_equals_not_mem {line : List UInt8} (hline : equalsByte ∉ line) :
    settingOf? line = none := by
  rw [settingOf?_eq_bind, cutAtFirst_eq_none_iff.mpr]
  · rfl
  · exact forall_beq_eq_false hline

theorem keyOf?_of_equals_not_mem {line : List UInt8} (hline : equalsByte ∉ line) :
    keyOf? line = none := by
  rw [keyOf?_eq_bind, cutAtFirst_eq_none_iff.mpr]
  · rfl
  · exact forall_beq_eq_false hline

theorem hasPlainKey_of_equals_not_mem {line : List UInt8} (hline : equalsByte ∉ line) :
    HasPlainKey line := by
  intro parts hparts
  obtain ⟨mark, rfl, hmark, -⟩ := exists_of_cutAtFirst hparts
  obtain rfl : mark = equalsByte := by simpa using hmark
  simp at hline

section Written

variable {key : String}

theorem IsWritableKey.isKey (hkey : IsWritableKey key) : Line.IsKey key.toList :=
  ⟨hkey.ne_nil, hkey.equals_not_mem, hkey.strip_eq, hkey.not_comment⟩

theorem IsWritableKey.keyIn?_eq (hkey : IsWritableKey key) :
    Line.keyIn? key.toList = some key.toList :=
  hkey.isKey.keyIn?_eq

theorem cutAtFirst_settingLine (hkey : IsWritableKey key) (value : String) :
    cutAtFirst (· == equalsByte) (settingLine key value) =
      some (Utf8.encodeText key.toList, Utf8.encodeText (Value.format value.toList)) := by
  have hline : settingLine key value =
      Utf8.encodeText key.toList ++ equalsByte :: Utf8.encodeText (Value.format value.toList) := by
    rw [settingLine, Utf8.encodeText, List.flatMap_append]
    rfl
  rw [hline]
  refine cutAtFirst_append_cons (forall_beq_eq_false fun hbyte => ?_) (by simp)
  exact hkey.equals_not_mem ((Utf8.mem_encodeText_iff (by decide)).mp hbyte)

theorem keyOf?_settingLine (hkey : IsWritableKey key) (value : String) :
    keyOf? (settingLine key value) = some (glyphs key) := by
  rw [keyOf?_eq_bind, cutAtFirst_settingLine hkey, Option.bind_some, Utf8.decode_encodeText,
    Line.keyIn?_map (f := Glyph.char) (fun _ => rfl), hkey.keyIn?_eq]
  rfl

/-- **Written settings are read back.** -/
theorem settingOf?_settingLine (hkey : IsWritableKey key) (value : String) :
    settingOf? (settingLine key value) = some (key, value) := by
  rw [settingOf?, settingLine, Utf8.decodeLossy_encodeText, hkey.isKey.split?_eq, Value.strip_format,
    Option.map_some]
  dsimp only
  rw [Value.unquote_format, String.ofList_toList, String.ofList_toList]

theorem hasPlainKey_settingLine (hkey : IsWritableKey key) (value : String) :
    HasPlainKey (settingLine key value) := by
  intro parts hparts
  rw [cutAtFirst_settingLine hkey] at hparts
  obtain rfl := Option.some.inj hparts
  rw [Utf8.decodeStrict?_eq_some_iff.mpr (Utf8.decode_encodeText key.toList)]
  rfl

theorem lf_not_mem_settingLine (hkey : IsWritableKey key) (value : String) :
    Byte.lf ∉ settingLine key value := by
  rw [settingLine, Utf8.mem_encodeText_iff (by decide), List.mem_append, not_or]
  refine ⟨hkey.lf_not_mem, ?_⟩
  rw [List.mem_cons, not_or]
  exact ⟨by decide, Value.lf_not_mem_format value.toList⟩

theorem isFileLine_settingLine (hkey : IsWritableKey key) {value : String}
    (hvalue : '\r' ∉ value.toList) : IsFileLine (settingLine key value) := by
  refine ⟨lf_not_mem_settingLine hkey value, ?_⟩
  rw [settingLine, Utf8.mem_encodeText_iff (by decide), List.mem_append, not_or]
  refine ⟨hkey.cr_not_mem, ?_⟩
  rw [List.mem_cons, not_or]
  exact ⟨by decide, Value.cr_not_mem_format hvalue⟩

end Written

theorem equals_not_mem_of_isBlankLine {line : List UInt8} (hblank : isBlankLine line = true) :
    equalsByte ∉ line := by
  intro hmem
  have hglyph := (Utf8.char_mem_decode_iff (by decide)).mpr hmem
  have hequals := List.all_eq_true.mp hblank _ hglyph
  exact absurd hequals (by decide)

theorem keyOf?_of_isBlankLine {line : List UInt8} (hblank : isBlankLine line = true) :
    keyOf? line = none :=
  keyOf?_of_equals_not_mem (equals_not_mem_of_isBlankLine hblank)

theorem settingOf?_of_isBlankLine {line : List UInt8} (hblank : isBlankLine line = true) :
    settingOf? line = none :=
  settingOf?_of_equals_not_mem (equals_not_mem_of_isBlankLine hblank)

theorem keyOf?_of_isSeparator {line : List UInt8} (hseparator : isSeparator line = true) :
    keyOf? line = none := by
  have hstrip : strip (Utf8.decode line) = glyphs separator := by
    simpa [isSeparator] using hseparator
  unfold keyOf? Line.key? Line.split?
  rw [hstrip]
  decide

end EnvFill.EnvFile
