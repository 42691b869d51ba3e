import EnvFill.Text.Lines
import EnvFill.Text.Utf8

/-!
# Decoding loses nothing, and ASCII bytes cut it

A byte below 128 is a character of its own and part of no other, whatever stands around it. So the
glyphs of a file are those of its pieces between such bytes: a line of settings means the same read
alone and read within its file, and so does the key before its first `=`.
-/

namespace EnvFill.Text.Utf8

theorem length_utf8EncodeChar_pos (c : Char) : 0 < (String.utf8EncodeChar c).length := by
  rw [String.length_utf8EncodeChar]
  exact c.utf8Size_pos

theorem firstChar?_encode_append (c : Char) (rest : List UInt8) :
    firstChar? (String.utf8EncodeChar c ++ rest) = some c := by
  have hlength : (String.utf8EncodeChar c).length ≤ 4 := by
    rw [String.length_utf8EncodeChar]
    exact c.utf8Size_le_four
  unfold firstChar?
  rw [List.take_append, List.take_of_length_le hlength, List.toByteArray_append]
  exact ByteArray.utf8DecodeChar?_utf8EncodeChar_append

theorem exists_append_of_firstChar? {bytes : List UInt8} {c : Char}
    (hfirst : firstChar? bytes = some c) : ∃ rest, bytes = String.utf8EncodeChar c ++ rest := by
  obtain ⟨tail, htail⟩ := ByteArray.exists_of_utf8DecodeChar?_eq_some hfirst
  have hdata := congrArg (fun array => array.data.toList) htail
  simp only [List.data_toByteArray, ByteArray.data_append, Array.toList_append] at hdata
  refine ⟨tail.data.toList ++ bytes.drop 4, ?_⟩
  rw [← List.append_assoc, ← hdata, List.take_append_drop]

/-- Decoding takes an encoded character whole. -/
theorem decode_encode_append (c : Char) (rest : List UInt8) :
    decode (String.utf8EncodeChar c ++ rest) = .char c :: decode rest := by
  obtain ⟨byte, tail, hbytes⟩ := List.exists_cons_of_length_pos (length_utf8EncodeChar_pos c)
  have hfirst := firstChar?_encode_append c rest
  have hsize : c.utf8Size - 1 = tail.length := by
    rw [← String.length_utf8EncodeChar, hbytes, List.length_cons, Nat.add_sub_cancel]
  rw [hbytes, List.cons_append] at hfirst ⊢
  rw [decode, hfirst]
  simp only [hsize, List.drop_left]

theorem decode_stray {byte : UInt8} {rest : List UInt8}
    (hfirst : firstChar? (byte :: rest) = none) :
    decode (byte :: rest) = .stray byte :: decode rest := by
  rw [decode, hfirst]

/-- Bytes are taken apart by characters where there are some, and else one by one. -/
theorem decode_induction {motive : List UInt8 → Prop} (nil : motive [])
    (char : ∀ c rest, motive rest → motive (String.utf8EncodeChar c ++ rest))
    (stray : ∀ byte rest, firstChar? (byte :: rest) = none → motive rest → motive (byte :: rest))
    (bytes : List UInt8) : motive bytes := by
  induction hn : bytes.length using Nat.strongRecOn generalizing bytes with
  | ind n ih =>
    subst hn
    cases bytes with
    | nil => exact nil
    | cons byte rest =>
      cases hfirst : firstChar? (byte :: rest) with
      | none => exact stray byte rest hfirst (ih _ (by simp) rest rfl)
      | some c =>
        obtain ⟨tail, htail⟩ := exists_append_of_firstChar? hfirst
        have hpos := length_utf8EncodeChar_pos c
        rw [htail] at ih ⊢
        refine char c tail (ih _ ?_ tail rfl)
        rw [List.length_append]
        omega

theorem encode_decode (bytes : List UInt8) : encode (decode bytes) = bytes := by
  induction bytes using decode_induction with
  | nil => simp [decode, encode]
  | char c rest ih =>
    rw [decode_encode_append, encode, List.flatMap_cons, ← encode, ih]
    rfl
  | stray byte rest hfirst ih =>
    rw [decode_stray hfirst, encode, List.flatMap_cons, ← encode, ih]
    rfl

theorem decode_encodeText_append (text : List Char) (rest : List UInt8) :
    decode (encodeText text ++ rest) = text.map .char ++ decode rest := by
  induction text with
  | nil => rfl
  | cons c text ih =>
    rw [encodeText, List.flatMap_cons, ← encodeText, List.append_assoc, decode_encode_append, ih]
    rfl

theorem decode_encodeText (text : List Char) : decode (encodeText text) = text.map .char := by
  have happend := decode_encodeText_append text []
  rwa [List.append_nil, decode, List.append_nil] at happend

theorem decodeLossy_encodeText (text : List Char) : decodeLossy (encodeText text) = text := by
  rw [decodeLossy, decode_encodeText, List.filterMap_map]
  exact List.filterMap_some

theorem eq_singleton_of_mem_utf8EncodeChar {c : Char} {byte : UInt8} (hascii : byte < 128)
    (hmem : byte ∈ String.utf8EncodeChar c) : String.utf8EncodeChar c = [byte] := by
  have hlow : byte.toNat < 128 := hascii
  unfold String.utf8EncodeChar at hmem ⊢
  dsimp only at hmem ⊢
  split at hmem
  · simp_all
  all_goals
    have hhigh : 128 ≤ byte.toNat := by
      split at hmem <;> (try split at hmem) <;>
        simp only [List.mem_cons, List.not_mem_nil, or_false] at hmem <;>
        rcases hmem with rfl | rfl | rfl | rfl <;> simp <;> omega
    omega

theorem utf8EncodeChar_ofUInt8 {byte : UInt8} (hascii : byte < 128) :
    String.utf8EncodeChar (Char.ofUInt8 byte) = [byte] := by
  have hlow : byte.toNat < 128 := hascii
  have hval : (Char.ofUInt8 byte).val.toNat = byte.toNat := UInt8.toNat_toUInt32 byte
  unfold String.utf8EncodeChar
  dsimp only
  rw [hval, if_pos (by omega)]
  simp

/-- **ASCII bytes cut.** What stands before such a byte is decoded as if nothing came after it. -/
theorem decode_append_ascii (front : List UInt8) {byte : UInt8} (hascii : byte < 128)
    (rest : List UInt8) :
    decode (front ++ byte :: rest) =
      decode front ++ .char (Char.ofUInt8 byte) :: decode rest := by
  induction front using decode_induction with
  | nil =>
    have hencode := decode_encode_append (Char.ofUInt8 byte) rest
    rw [utf8EncodeChar_ofUInt8 hascii] at hencode
    simpa [decode] using hencode
  | char c front ih =>
    rw [List.append_assoc, decode_encode_append, decode_encode_append, ih, List.cons_append]
  | stray first front hfirst ih =>
    have hlong : firstChar? (first :: (front ++ byte :: rest)) = none := by
      cases hc : firstChar? (first :: (front ++ byte :: rest)) with
      | none => rfl
      | some c =>
        exfalso
        obtain ⟨tail, htail⟩ := exists_append_of_firstChar? hc
        rw [← List.cons_append, List.append_eq_append_iff] at htail
        rcases htail with ⟨reach, hreach, hbyte⟩ | ⟨reach, hreach, -⟩
        · -- The character reaches beyond `front`, so up to the ASCII byte, which stands alone.
          cases reach with
          | nil =>
            rw [List.append_nil] at hreach
            have hself := firstChar?_encode_append c []
            rw [List.append_nil, hreach, hfirst] at hself
            simp at hself
          | cons head reach =>
            obtain ⟨rfl, -⟩ := List.cons.inj hbyte
            have hmem : byte ∈ String.utf8EncodeChar c := by simp [hreach]
            have hlength := congrArg List.length hreach
            rw [eq_singleton_of_mem_utf8EncodeChar hascii hmem] at hlength
            simp at hlength
        · rw [hreach, firstChar?_encode_append] at hfirst
          simp at hfirst
    rw [List.cons_append, decode_stray hlong, decode_stray hfirst, ih, List.cons_append]

theorem decodeLossy_nil : decodeLossy [] = [] := by
  rw [decodeLossy, decode]
  rfl

theorem decodeLossy_append_ascii (front : List UInt8) {byte : UInt8} (hascii : byte < 128)
    (rest : List UInt8) :
    decodeLossy (front ++ byte :: rest) =
      decodeLossy front ++ Char.ofUInt8 byte :: decodeLossy rest := by
  unfold decodeLossy
  rw [decode_append_ascii front hascii rest, List.filterMap_append]
  rfl

end EnvFill.Text.Utf8
