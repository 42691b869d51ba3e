import EnvFill.EnvFile.Edit
import EnvFill.Proofs.LineEnds

/-!
# A file that is edited as one text

A file of settings could be decoded as a whole, have its line ends made alike and its lines of text edited, and
then be encoded again. The edits take lines of bytes instead, and decode no more than one line to see what it
sets. Both come to the same bytes: the bytes of line ends are ASCII, so they cut the text where they cut the file.
-/

namespace EnvFill.Text

def withLineFeeds : List Glyph → List Glyph
  | [] => []
  | .char '\r' :: .char '\n' :: rest => .char '\n' :: withLineFeeds rest
  | .char '\r' :: rest => .char '\n' :: withLineFeeds rest
  | glyph :: rest => glyph :: withLineFeeds rest

/-- The lines of text joined by line feeds, with all line feeds at the end replaced by one. -/
def joinTexts (texts : List (List Glyph)) : List Glyph :=
  dropEndWhile (· == .char '\n') ([.char '\n'].intercalate texts) ++ [.char '\n']

variable {bytes : List UInt8} {front rest : List Glyph}

theorem withLineFeeds_append (hfront : .char '\r' ∉ front) (rest : List Glyph) :
    withLineFeeds (front ++ rest) = front ++ withLineFeeds rest := by
  induction front with
  | nil => rfl
  | cons glyph front ih =>
    rw [List.mem_cons, not_or] at hfront
    have hcons : withLineFeeds (glyph :: (front ++ rest)) = glyph :: withLineFeeds (front ++ rest) := by
      rw [withLineFeeds]
      · rintro _ rfl
        exact absurd rfl hfront.1
      · rintro rfl
        exact absurd rfl hfront.1
    rw [List.cons_append, hcons, ih hfront.2, List.cons_append]

theorem withLineFeeds_of_cr_not_mem (hcr : .char '\r' ∉ front) : withLineFeeds front = front := by
  have happend := withLineFeeds_append hcr []
  rwa [List.append_nil, withLineFeeds, List.append_nil] at happend

theorem withLineFeeds_cr (hrest : rest.head? ≠ some (.char '\n')) :
    withLineFeeds (.char '\r' :: rest) = .char '\n' :: withLineFeeds rest := by
  rw [withLineFeeds]
  rintro _ rfl
  exact hrest rfl

theorem decode_nil : Utf8.decode [] = [] := by
  rw [Utf8.decode]

theorem decode_append_lf (front rest : List UInt8) :
    Utf8.decode (front ++ Byte.lf :: rest) = Utf8.decode front ++ .char '\n' :: Utf8.decode rest :=
  Utf8.decode_append_ascii front (by decide) rest

theorem decode_lf_cons (rest : List UInt8) : Utf8.decode (Byte.lf :: rest) = .char '\n' :: Utf8.decode rest := by
  have hcut := decode_append_lf [] rest
  rwa [decode_nil] at hcut

/-- A line feed is decoded from its byte only. -/
theorem head?_decode_eq_lf_iff : (Utf8.decode bytes).head? = some (.char '\n') ↔ bytes.head? = some Byte.lf := by
  constructor
  · intro hhead
    obtain ⟨tail, htail⟩ := List.head?_eq_some_iff.mp hhead
    have hbytes : bytes = Byte.lf :: Utf8.encode tail := by
      rw [← Utf8.encode_decode bytes, htail]
      rfl
    rw [hbytes]
    rfl
  · intro hhead
    obtain ⟨tail, rfl⟩ := List.head?_eq_some_iff.mp hhead
    rw [decode_lf_cons]
    rfl

/-- Line ends may be made alike before decoding or after it. -/
theorem decode_unifyLineEnds (bytes : List UInt8) :
    Utf8.decode (unifyLineEnds bytes) = withLineFeeds (Utf8.decode bytes) := by
  induction hlength : bytes.length using Nat.strong_induction_on generalizing bytes with
  | _ length ih =>
    subst hlength
    by_cases hcr : Byte.cr ∈ bytes
    · obtain ⟨front, back, rfl, hfront⟩ := List.eq_append_cons_of_mem hcr
      have hclean : Glyph.char '\r' ∉ Utf8.decode front :=
        fun hmem => hfront ((Utf8.char_mem_decode_iff (by decide)).mp hmem)
      rw [Utf8.decode_append_ascii front (by decide), withLineFeeds_append hclean, unifyLineEnds_append hfront]
      by_cases hhead : back.head? = some Byte.lf
      · obtain ⟨rest, rfl⟩ := List.head?_eq_some_iff.mp hhead
        have hrest := ih rest.length (by simp; omega) rest rfl
        rw [unifyLineEnds_crlf, decode_append_lf, hrest, decode_lf_cons]
        rfl
      · have hrest := ih back.length (by simp; omega) back rfl
        have hcons : unifyLineEnds (Byte.cr :: back) = Byte.lf :: unifyLineEnds back :=
          congrArg (Byte.lf :: ·) (unifyLineEndsFrom_of_head? hhead true)
        rw [hcons, decode_append_lf, hrest]
        exact congrArg (Utf8.decode front ++ ·)
          (withLineFeeds_cr fun hlf => hhead (head?_decode_eq_lf_iff.mp hlf)).symm
    · have hclean : Glyph.char '\r' ∉ Utf8.decode bytes :=
        fun hmem => hcr ((Utf8.char_mem_decode_iff (by decide)).mp hmem)
      rw [unifyLineEnds_of_cr_not_mem hcr, withLineFeeds_of_cr_not_mem hclean]

/-- The lines of the text are the lines of the file. -/
theorem splitAtEach_withLineFeeds (bytes : List UInt8) :
    splitAtEach (· == .char '\n') (withLineFeeds (Utf8.decode bytes)) = (byteLines bytes).map Utf8.decode := by
  have hascii : Byte.lf < 128 := by decide
  rw [← decode_unifyLineEnds]
  exact splitAtEach_reading (fun _ => Utf8.char_mem_decode_iff hascii) decode_append_lf _

theorem decode_dropEndWhile (bytes : List UInt8) :
    Utf8.decode (dropEndWhile (· == Byte.lf) bytes) = dropEndWhile (· == .char '\n') (Utf8.decode bytes) := by
  induction bytes using List.reverseRecOn with
  | nil =>
    rw [decode_nil]
    exact decode_nil
  | append_singleton front byte ih =>
    by_cases hlf : byte = Byte.lf
    · subst hlf
      rw [dropEndWhile_append_of_forall front (by simp), ih, decode_append_lf, decode_nil,
        dropEndWhile_append_of_forall _ (by simp)]
    · rw [dropEndWhile_concat (p := (· == Byte.lf)) front (by simpa using hlf), eq_comm,
        dropEndWhile_eq_rdropWhile, List.rdropWhile_eq_self_iff]
      intro hne hlast
      have hglyphs : Utf8.decode (front ++ [byte]) =
          (Utf8.decode (front ++ [byte])).dropLast ++ [.char '\n'] := by
        rw [← eq_of_beq hlast, List.dropLast_append_getLast]
      have hbytes := Utf8.encode_decode (front ++ [byte])
      rw [hglyphs, Utf8.encode, List.flatMap_append] at hbytes
      exact hlf (List.singleton_inj.mp (List.append_inj' hbytes rfl).2).symm

/-- Lines of bytes are joined to the bytes of the joined texts. -/
theorem decode_joinByteLines (lines : List (List UInt8)) :
    Utf8.decode (joinByteLines lines) = joinTexts (lines.map Utf8.decode) := by
  have hjoined : Utf8.decode ([Byte.lf].intercalate lines) =
      [.char '\n'].intercalate (lines.map Utf8.decode) := by
    cases lines using List.reverseRecOn with
    | nil => exact decode_nil
    | append_singleton lines last =>
      rw [intercalate_concat, List.map_append, List.map_singleton, intercalate_concat]
      exact reading_endEach_append decode_append_lf lines last
  unfold joinByteLines joinTexts
  rw [decode_append_lf, decode_dropEndWhile, hjoined, decode_nil]

end EnvFill.Text

namespace EnvFill.EnvFile

open Text

def textsOf (content : Option (List UInt8)) : List (List Glyph) :=
  match content with
  | none => []
  | some bytes => splitAtEach (· == .char '\n') (withLineFeeds (Utf8.decode bytes))

def settingText (key value : String) : List Glyph := (key.toList ++ '=' :: Value.format value.toList).map .char

def updateText (entries : Entries) (text : List Glyph) : List Glyph :=
  match (Line.key? text).bind fun key => entries.toList.find? fun pair => glyphs pair.1 == key with
  | some (key, value) => settingText key value
  | none => text

/-- The lines of text with lines added at the end, under the separator if there are lines above. -/
def addTexts (added texts : List (List Glyph)) : List (List Glyph) :=
  if added.isEmpty then texts
  else
    let kept := dropEndWhile isAllBlank texts
    let divider :=
      if kept.isEmpty || kept.any fun text => strip text == glyphs separator then []
      else [[], glyphs separator]
    kept ++ divider ++ added

/-- The text of the file with all settings of `entries` made. -/
def editText (entries : Entries) (content : Option (List UInt8)) : List Glyph :=
  let texts := textsOf content
  let present := texts.filterMap Line.key?
  let absent := entries.toList.filter fun pair => !present.contains (glyphs pair.1)
  joinTexts (addTexts (absent.map fun (key, value) => settingText key value) (texts.map (updateText entries)))

theorem textsOf_eq (content : Option (List UInt8)) : textsOf content = (linesOf content).map Utf8.decode := by
  cases content with
  | none => rfl
  | some bytes => exact splitAtEach_withLineFeeds bytes

theorem decode_settingLine (key value : String) : Utf8.decode (settingLine key value) = settingText key value :=
  Utf8.decode_encodeText _

theorem decode_updateLine (entries : Entries) (line : List UInt8) :
    Utf8.decode (updateLine entries line) = updateText entries (Utf8.decode line) := by
  have hsetting : (Line.key? (Utf8.decode line)).bind
      (fun key => entries.toList.find? fun pair => glyphs pair.1 == key) = settingFor? entries line := rfl
  unfold updateLine updateText
  rw [hsetting]
  cases settingFor? entries line with
  | none => rfl
  | some pair => exact decode_settingLine pair.1 pair.2

theorem map_decode_addSettings (added : List (String × String)) (lines : List (List UInt8)) :
    (addSettings added lines).map Utf8.decode =
      addTexts (added.map fun (key, value) => settingText key value) (lines.map Utf8.decode) := by
  unfold addSettings addTexts
  rw [List.isEmpty_map]
  split
  · rfl
  · have hkept : dropEndWhile isAllBlank (lines.map Utf8.decode) =
        (dropEndWhile isBlankLine lines).map Utf8.decode := dropEndWhile_map (fun _ => rfl) lines
    have hseparator : Utf8.decode (Utf8.encodeText separator.toList) = glyphs separator :=
      Utf8.decode_encodeText _
    have hadded : (added.map fun (key, value) => settingLine key value).map Utf8.decode =
        added.map fun (key, value) => settingText key value := by
      rw [List.map_map]
      exact List.map_congr_left fun pair _ => decode_settingLine _ _
    dsimp only
    rw [hkept, List.isEmpty_map, List.any_map, List.map_append, List.map_append, hadded]
    have hany : (dropEndWhile isBlankLine lines).any ((fun text => strip text == glyphs separator) ∘ Utf8.decode) =
        (dropEndWhile isBlankLine lines).any isSeparator := rfl
    rw [hany]
    split
    · rfl
    · rw [List.map_cons, List.map_singleton, decode_nil, hseparator]

/-- **The edit of lines of bytes is the edit of the whole text.** The file is the same as if it were decoded, its
lines of text edited, and the text encoded again. -/
theorem setEntries_eq_encode (entries : Entries) (content : Option (List UInt8)) :
    setEntries entries content = Utf8.encode (editText entries content) := by
  have hpresent : (textsOf content).filterMap Line.key? = (linesOf content).filterMap keyOf? := by
    rw [textsOf_eq, List.filterMap_map]
    rfl
  have hupdated : (textsOf content).map (updateText entries) =
      ((linesOf content).map (updateLine entries)).map Utf8.decode := by
    rw [textsOf_eq, List.map_map, List.map_map]
    exact List.map_congr_left fun line _ => (decode_updateLine entries line).symm
  have hdecode : Utf8.decode (setEntries entries content) = editText entries content := by
    unfold setEntries editText absentFrom
    dsimp only
    rw [decode_joinByteLines, map_decode_addSettings, hpresent, hupdated]
  rw [← hdecode, Utf8.encode_decode]

def editTemplate (content : Option (List UInt8)) (missing : List String) : List Glyph :=
  let above :=
    match content with
    | none => templateHeader.map glyphs
    | some _ => dropEndWhile isAllBlank (textsOf content)
  let divider := if above.isEmpty then [] else [[]]
  joinTexts (above ++ divider ++ missing.map fun key => glyphs key ++ [.char '='])

/-- So it is for the template. -/
theorem addKeys_eq_encode (content : Option (List UInt8)) (missing : List String) :
    addKeys content missing = Utf8.encode (editTemplate content missing) := by
  have hkept : dropEndWhile isAllBlank (textsOf content) =
      (dropEndWhile isBlankLine (linesOf content)).map Utf8.decode := by
    rw [textsOf_eq]
    exact dropEndWhile_map (fun _ => rfl) _
  have hheader : (templateHeader.map fun line => Utf8.encodeText line.toList).map Utf8.decode =
      templateHeader.map glyphs := by
    rw [List.map_map]
    exact List.map_congr_left fun line _ => Utf8.decode_encodeText _
  have hmissing : (missing.map fun key => Utf8.encodeText (key.toList ++ ['='])).map Utf8.decode =
      missing.map fun key => glyphs key ++ [.char '='] := by
    rw [List.map_map]
    refine List.map_congr_left fun key _ => (Utf8.decode_encodeText _).trans ?_
    rw [List.map_append]
    rfl
  have hdivider : ∀ above : List (List UInt8), (if above.isEmpty then [] else [[]]).map Utf8.decode =
      if (above.map Utf8.decode).isEmpty then [] else [[]] := fun above => by
    rw [List.isEmpty_map]
    split
    · rfl
    · rw [List.map_singleton, decode_nil]
  have hdecode : Utf8.decode (addKeys content missing) = editTemplate content missing := by
    unfold addKeys editTemplate
    dsimp only
    rw [decode_joinByteLines, List.map_append, List.map_append, hmissing, hdivider]
    cases content with
    | none => rw [hheader]
    | some bytes => rw [hkept]
  rw [← hdecode, Utf8.encode_decode]

end EnvFill.EnvFile
