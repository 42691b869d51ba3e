import EnvFill.Proofs.EscapedMarkup
import EnvFill.Proofs.PastedValues
import EnvFill.Screen.Questions

/-!
# Values that are previewed

A value that is no secret is escaped in the preview of a paste, after it is cut. The hidden form of a secret
is shown without: what is left of the value may hold a tag.
-/

namespace EnvFill.Screen

open EnvFile Text

variable {text key value shown : String}

/-- What a preview shows of a value: a secret is hidden, and any other value cut if it is long. -/
def excerpt (key value : String) : String :=
  if Name.isSecret key then masked value
  else if value.length ≤ 40 then value
  else String.ofList (value.toList.take 37) ++ "..."

/-- How it is written in the markup of the preview: only what is no secret is escaped. -/
def previewed (key value : String) : String :=
  if Name.isSecret key then excerpt key value else escape (excerpt key value)

def secretNote (key : String) : String := if Name.isSecret key then "  \\[secret]" else ""

def previewText (key shown : String) : String :=
  s!"    [green]✔[/green] {key} [dim]=[/dim] [dim]{shown}[/dim]"

theorem contains_secretKeys {values : Entries} (hkey : key ∈ values.keys) :
    (secretKeys values).contains key = Name.isSecret key := by
  rw [Bool.eq_iff_iff, List.contains_iff_mem, secretKeys, List.mem_filter, and_iff_right hkey]

theorem previewValue_eq (hvalue : value ≠ "") :
    previewValue (Name.isSecret key) value = previewed key value ++ secretNote key := by
  have hempty : value.isEmpty = false := by
    rw [Bool.eq_false_iff, Ne, String.isEmpty_iff]
    exact hvalue
  unfold previewValue previewed excerpt secretNote
  cases Name.isSecret key with
  | true => rfl
  | false =>
    rw [hempty, if_neg Bool.false_ne_true, if_neg Bool.false_ne_true, if_neg Bool.false_ne_true,
      if_neg Bool.false_ne_true, if_neg Bool.false_ne_true, String.append_empty]
    split <;> rfl

theorem previewLine_eq (hkey : key ∈ (Entries.ofPaste text).keys) (hvalue : value ≠ "") :
    previewLine (secretKeys (Entries.ofPaste text)) key value =
      line (previewText key (previewed key value ++ secretNote key)) := by
  unfold previewLine
  rw [contains_secretKeys hkey, previewValue_eq hvalue]
  rfl

theorem plainFrom_key (hkey : isPlainKey key.toList = true) (rest : List Char) :
    plainFrom false 0 (key.toList ++ rest) = key.toList ++ plainFrom false 0 rest := by
  refine plainFrom_append_of_forall (fun c hc => ?_) rest
  have hchar := (chars_of_isPlainKey hkey).2 c hc
  refine ⟨?_, ?_⟩
  · rintro rfl
    exact absurd hchar (by decide)
  · rintro rfl
    exact absurd hchar (by decide)

theorem plain_previewText (hkey : isPlainKey key.toList = true) (shown : String) :
    (plain (previewText key shown)).toList =
      "    ✔ ".toList ++ (key.toList ++ (" = ".toList ++
        plainFrom false 0 (shown.toList ++ "[/dim]".toList))) := by
  have hfront (rest : List Char) : plainFrom false 0 ("    [green]✔[/green] ".toList ++ rest) =
      "    ✔ ".toList ++ plainFrom false 0 rest := rfl
  have hsign (rest : List Char) : plainFrom false 0 (" [dim]=[/dim] [dim]".toList ++ rest) =
      " = ".toList ++ plainFrom false 0 rest := rfl
  unfold plain previewText
  rw [String.toList_ofList]
  simp only [String.toList_append, List.append_assoc, toString]
  rw [hfront, plainFrom_key hkey, hsign]

def previewedLine (key value : String) : String :=
  s!"    ✔ {key} = {excerpt key value}" ++ if Name.isSecret key then "  [secret]" else ""

theorem plain_previewText_iff (hkey : isPlainKey key.toList = true) {shown : String} :
    plain (previewText key shown) = previewedLine key value ↔
      plainFrom false 0 (shown.toList ++ "[/dim]".toList) =
        (excerpt key value).toList ++ (if Name.isSecret key then "  [secret]" else "").toList := by
  rw [← String.toList_inj, plain_previewText hkey, previewedLine]
  simp only [String.toList_append, List.append_assoc, toString, List.append_right_inj]

theorem plain_escaped_line_iff (hkey : isPlainKey key.toList = true)
    (hsecret : Name.isSecret key = false) :
    plain (previewText key (escape (excerpt key value) ++ secretNote key)) = previewedLine key value ↔
      slashes (excerpt key value).toList ≤ 1 := by
  have htag : opensTag "/dim]".toList = true := by decide
  have hclose : plainFrom true 0 "/dim]".toList = "".toList := rfl
  have hdim : "[/dim]".toList = '[' :: "/dim]".toList := rfl
  rw [plain_previewText_iff hkey, secretNote, hsecret, if_neg Bool.false_ne_true, if_neg Bool.false_ne_true,
    String.append_empty, hdim, ← hclose, plainFrom_escape_tag_iff htag]

theorem plain_secret_line_iff (hkey : isPlainKey key.toList = true) (hsecret : Name.isSecret key = true) :
    plain (previewText key (excerpt key value ++ secretNote key)) = previewedLine key value ↔
      ¬HasTag (excerpt key value).toList := by
  have hnote : "  \\[secret]".toList ++ "[/dim]".toList = ' ' :: " \\[secret][/dim]".toList := rfl
  have htail : LeavesTags (' ' :: " \\[secret][/dim]".toList) := leavesTags_of_head? rfl (by decide)
  have hshown : plainFrom false 0 (' ' :: " \\[secret][/dim]".toList) = "  [secret]".toList := rfl
  rw [plain_previewText_iff hkey, secretNote, hsecret, if_pos rfl, if_pos rfl, String.toList_append,
    List.append_assoc, hnote, ← hshown, plainFrom_append_eq_iff (by decide) (by decide) htail]

/-- **A pasted value is previewed escaped unless it is a secret.** The hidden form of a secret is written as
it is, which makes a difference exactly if it holds a tag or ends in a lone backslash. A line is read as it is
meant unless its value is a secret whose hidden form holds a tag, or no secret and ends in several backslashes.
-/
theorem pastePreview_escapes_just_where (text : String) {index : Nat}
    (hpair : (Entries.ofPaste text).toList[index]? = some (key, value)) (hvalue : value ≠ "") :
    (pastePreview (Entries.ofPaste text) (secretKeys (Entries.ofPaste text)))[index + 1]? =
        some (line (previewText key (previewed key value ++ secretNote key))) ∧
      (previewed key value = escape (excerpt key value) ↔
        (Name.isSecret key = true →
          ¬HasTag (excerpt key value).toList ∧ slashes (excerpt key value).toList ≠ 1)) ∧
      (plain (previewText key (previewed key value ++ secretNote key)) = previewedLine key value ↔
        if Name.isSecret key then ¬HasTag (excerpt key value).toList
        else slashes (excerpt key value).toList ≤ 1) := by
  have hkey : key ∈ (Entries.ofPaste text).keys :=
    List.mem_map_of_mem (List.mem_of_getElem? hpair)
  have hplain : isPlainKey key.toList = true := (exists_line_of_mem_ofPaste hkey).1
  refine ⟨?_, ?_⟩
  · rw [pastePreview, List.getElem?_cons_succ, List.getElem?_map, hpair, Option.map_some]
    exact congrArg some (previewLine_eq hkey hvalue)
  · unfold previewed
    cases hsecret : Name.isSecret key with
    | true =>
      rw [if_pos rfl, eq_comm, escape_eq_self_iff]
      exact ⟨⟨fun hmask _ => hmask, fun hmask => hmask rfl⟩, plain_secret_line_iff hplain hsecret⟩
    | false =>
      rw [if_neg Bool.false_ne_true]
      exact ⟨⟨fun _ hkey => absurd hkey Bool.false_ne_true, fun _ => rfl⟩,
        plain_escaped_line_iff hplain hsecret⟩

/-- A secret whose hidden form has brackets but no tag, and a tag in a value that is no secret. -/
theorem pastePreview_escapes_just_where_of_brackets :
    previewed "API_KEY" "[X]abcd" = escape "[X]••••cd" ∧
      plain (previewText "NOTE" (previewed "NOTE" "[b]x[/b]" ++ secretNote "NOTE")) =
        "    ✔ NOTE = [b]x[/b]" := by
  have hpaste : (Entries.ofPaste "API_KEY=[X]abcd\nNOTE=[b]x[/b]").toList =
      [("API_KEY", "[X]abcd"), ("NOTE", "[b]x[/b]")] := by cbv
  have hmask : excerpt "API_KEY" "[X]abcd" = "[X]••••cd" := by decide
  have hsecret : Name.isSecret "NOTE" = false := by decide
  obtain ⟨-, hescaped, -⟩ := pastePreview_escapes_just_where "API_KEY=[X]abcd\nNOTE=[b]x[/b]"
    (congrArg (·[0]?) hpaste) (by decide)
  obtain ⟨-, -, hread⟩ := pastePreview_escapes_just_where "API_KEY=[X]abcd\nNOTE=[b]x[/b]"
    (congrArg (·[1]?) hpaste) (by decide)
  refine ⟨?_, ?_⟩
  · rw [hescaped.mpr fun _ => by rw [hmask]; decide, hmask]
  · rw [hread.mpr (by rw [hsecret, if_neg Bool.false_ne_true]; decide)]
    decide

/-- The hidden form of this secret is a tag that closes what was never opened. -/
theorem secret_tag_is_previewed_unescaped :
    (Entries.ofPaste "API_KEY=[/secret]").toList = [("API_KEY", "[/secret]")] ∧
      (pastePreview (Entries.ofPaste "API_KEY=[/secret]")
          (secretKeys (Entries.ofPaste "API_KEY=[/secret]")))[1]? =
        some (line "    [green]✔[/green] API_KEY [dim]=[/dim] [dim][/s••••t]  \\[secret][/dim]") ∧
      Name.isSecret "API_KEY" = true ∧ escape (masked "[/secret]") = "\\[/s••••t]" ∧
      ¬(escape (masked "[/secret]")).toList <:+:
        "    [green]✔[/green] API_KEY [dim]=[/dim] [dim][/s••••t]  \\[secret][/dim]".toList := by
  have hpaste : Entries.ofPaste "API_KEY=[/secret]" = OrderedMap.ofList [("API_KEY", "[/secret]")] := by
    apply OrderedMap.ext
    cbv
  have hsecret : secretKeys (OrderedMap.ofList [("API_KEY", "[/secret]")]) = ["API_KEY"] := by decide
  have hescape : escape (masked "[/secret]") = "\\[/s••••t]" := by decide
  rw [hpaste, hsecret, hescape]
  exact ⟨rfl, rfl, by decide, rfl, by decide +kernel⟩

end EnvFill.Screen
