import EnvFill.Proofs.Blanks
import EnvFill.Screen.Plain

/-!
# Markup that is escaped

Escaping a text changes it only where it holds a tag or ends in a lone backslash, and what is shown of an
escaped text is the text. The one exception is a text that ends in several backslashes: they are left as they
are, and where a tag follows them, they are taken for escapes of it. A text with a tag that is not escaped
shows less than it is long.
-/

namespace EnvFill.Screen

open Text

variable {text rest tail : List Char} {c : Char} {pending count : Nat}

def isBracket (c : Char) : Bool := c == '[' || c == ']'

def HasTag (text : List Char) : Prop := ∃ rest, '[' :: rest <:+ text ∧ opensTag rest = true

theorem not_hasTag_nil : ¬HasTag [] := by
  rintro ⟨rest, hrest, -⟩
  exact List.cons_ne_nil _ _ (List.suffix_nil.mp hrest)

theorem hasTag_cons_iff : HasTag (c :: rest) ↔ c = '[' ∧ opensTag rest = true ∨ HasTag rest := by
  unfold HasTag
  simp only [List.suffix_cons_iff, List.cons.injEq, or_and_right, exists_or]
  refine or_congr ⟨?_, ?_⟩ Iff.rfl
  · rintro ⟨_, ⟨rfl, rfl⟩, htag⟩
    exact ⟨rfl, htag⟩
  · rintro ⟨rfl, htag⟩
    exact ⟨rest, ⟨rfl, rfl⟩, htag⟩

instance decidableHasTag : DecidablePred HasTag
  | [] => isFalse not_hasTag_nil
  | c :: rest =>
    let _ : Decidable (HasTag rest) := decidableHasTag rest
    decidable_of_iff (c = '[' ∧ opensTag rest = true ∨ HasTag rest) hasTag_cons_iff.symm

/-! ### Backslashes at the end -/

def slashes (text : List Char) : Nat := (text.rtakeWhile (· == '\\')).length

def withoutSlashes (text : List Char) : List Char := dropEndWhile (· == '\\') text

theorem withoutSlashes_append (text : List Char) :
    withoutSlashes text ++ List.replicate (slashes text) '\\' = text := by
  have hslashes : text.rtakeWhile (· == '\\') = List.replicate (slashes text) '\\' :=
    List.eq_replicate_of_mem fun c hc => by simpa using List.mem_rtakeWhile_imp hc
  rw [← hslashes]
  exact List.rdropWhile_append_rtakeWhile

theorem withoutSlashes_append_cons (front : List Char) (hc : c ≠ '\\') (rest : List Char) :
    withoutSlashes (front ++ c :: rest) = front ++ c :: withoutSlashes rest :=
  dropEndWhile_append_cons front (by simpa using hc) rest

theorem slashes_append_cons (front : List Char) (hc : c ≠ '\\') (rest : List Char) :
    slashes (front ++ c :: rest) = slashes rest := by
  have hfront := congrArg List.length (withoutSlashes_append (front ++ c :: rest))
  have hrest := congrArg List.length (withoutSlashes_append rest)
  rw [withoutSlashes_append_cons front hc] at hfront
  simp only [List.length_append, List.length_cons, List.length_replicate] at hfront hrest
  omega

theorem slashes_append_replicate (front : List Char) (count : Nat) :
    slashes (front ++ List.replicate count '\\') = slashes front + count := by
  induction count with
  | zero => rw [List.replicate_zero, List.append_nil, Nat.add_zero]
  | succ count ih =>
    rw [List.replicate_succ', ← List.append_assoc, slashes, List.rtakeWhile_concat_pos _ _ _ rfl,
      List.length_append, List.length_singleton, ← Nat.add_assoc, ← ih, slashes]

theorem slashes_replicate (count : Nat) : slashes (List.replicate count '\\') = count :=
  (slashes_append_replicate [] count).trans (Nat.zero_add count)

theorem withoutSlashes_replicate (count : Nat) : withoutSlashes (List.replicate count '\\') = [] := by
  have hlength := congrArg List.length (withoutSlashes_append (List.replicate count '\\'))
  rw [slashes_replicate, List.length_append] at hlength
  exact List.eq_nil_of_length_eq_zero (by omega)

theorem replicate_isSuffix_iff : List.replicate count '\\' <:+ text ↔ count ≤ slashes text := by
  constructor
  · rintro ⟨front, rfl⟩
    rw [slashes_append_replicate]
    exact Nat.le_add_left count _
  · intro hcount
    obtain ⟨more, hmore⟩ := Nat.exists_eq_add_of_le' hcount
    refine ⟨withoutSlashes text ++ List.replicate more '\\', ?_⟩
    rw [List.append_assoc, List.replicate_append_replicate, ← hmore, withoutSlashes_append]

/-! ### What escaping changes -/

theorem escapeFrom_slash (pending : Nat) (rest : List Char) :
    escapeFrom pending ('\\' :: rest) = escapeFrom (pending + 1) rest := by
  rw [escapeFrom, if_pos rfl]

/-- A tag is written with one backslash more than twice those before it. -/
theorem escapeFrom_tag (pending : Nat) (htag : opensTag rest = true) :
    escapeFrom pending ('[' :: rest) =
      List.replicate (2 * pending + 1) '\\' ++ '[' :: escapeFrom 0 rest := by
  rw [escapeFrom, if_neg (by decide), htag]
  rfl

theorem escapeFrom_other (pending : Nat) (hc : c ≠ '\\') (htag : ¬(c = '[' ∧ opensTag rest = true)) :
    escapeFrom pending (c :: rest) = List.replicate pending '\\' ++ c :: escapeFrom 0 rest := by
  have hwritten : (c = '[' && opensTag rest) = false := by simpa using htag
  rw [escapeFrom, if_neg hc, hwritten]
  rfl

theorem replicate_append_slash (pending : Nat) (rest : List Char) :
    List.replicate pending '\\' ++ '\\' :: rest = List.replicate (pending + 1) '\\' ++ rest := by
  rw [List.replicate_succ', List.append_assoc, List.singleton_append]

/-- A text is empty, or it begins with a backslash, a tag or anything else. -/
theorem escape_induction {motive : Nat → List Char → Prop} (nil : ∀ pending, motive pending [])
    (slash : ∀ pending rest, motive (pending + 1) rest → motive pending ('\\' :: rest))
    (tag : ∀ pending rest, opensTag rest = true → motive 0 rest → motive pending ('[' :: rest))
    (other : ∀ pending c rest, c ≠ '\\' → ¬(c = '[' ∧ opensTag rest = true) → motive 0 rest →
      motive pending (c :: rest))
    (pending : Nat) (text : List Char) : motive pending text := by
  induction text generalizing pending with
  | nil => exact nil pending
  | cons c rest ih =>
    by_cases hslash : c = '\\'
    · rw [hslash]
      exact slash pending rest (ih (pending + 1))
    · by_cases htag : c = '[' ∧ opensTag rest = true
      · rw [htag.1]
        exact tag pending rest htag.2 (ih 0)
      · exact other pending c rest hslash htag (ih 0)

theorem escapeFrom_of_not_hasTag (htext : ¬HasTag text) (pending : Nat) :
    escapeFrom pending text = List.replicate pending '\\' ++ text := by
  induction pending, text using escape_induction with
  | nil pending => rw [escapeFrom, List.append_nil]
  | slash pending rest ih =>
    rw [hasTag_cons_iff, not_or] at htext
    rw [escapeFrom_slash, ih htext.2, replicate_append_slash]
  | tag pending rest htag _ => exact absurd (hasTag_cons_iff.mpr (.inl ⟨rfl, htag⟩)) htext
  | other pending c rest hc htag ih =>
    rw [hasTag_cons_iff, not_or] at htext
    rw [escapeFrom_other pending hc htag, ih htext.2, List.replicate_zero, List.nil_append]

theorem le_length_escapeFrom (pending : Nat) (text : List Char) :
    pending + text.length ≤ (escapeFrom pending text).length := by
  induction pending, text using escape_induction with
  | nil pending => rw [escapeFrom, List.length_replicate, List.length_nil, Nat.add_zero]
  | slash pending rest ih =>
    rw [escapeFrom_slash, List.length_cons]
    omega
  | tag pending rest htag ih =>
    rw [escapeFrom_tag pending htag, List.length_append, List.length_replicate, List.length_cons,
      List.length_cons]
    omega
  | other pending c rest hc htag ih =>
    rw [escapeFrom_other pending hc htag, List.length_append, List.length_replicate, List.length_cons,
      List.length_cons]
    omega

theorem lt_length_escapeFrom (htext : HasTag text) (pending : Nat) :
    pending + text.length < (escapeFrom pending text).length := by
  induction pending, text using escape_induction with
  | nil pending => exact absurd htext not_hasTag_nil
  | slash pending rest ih =>
    have hrest := ih ((hasTag_cons_iff.mp htext).resolve_left fun hbracket => absurd hbracket.1 (by decide))
    rw [escapeFrom_slash, List.length_cons]
    omega
  | tag pending rest htag _ =>
    have hrest := le_length_escapeFrom 0 rest
    rw [escapeFrom_tag pending htag, List.length_append, List.length_replicate, List.length_cons,
      List.length_cons]
    omega
  | other pending c rest hc htag ih =>
    have hrest := ih ((hasTag_cons_iff.mp htext).resolve_left htag)
    rw [escapeFrom_other pending hc htag, List.length_append, List.length_replicate, List.length_cons,
      List.length_cons]
    omega

theorem slashes_escapeFrom (pending : Nat) (text : List Char) :
    slashes (escapeFrom pending text) = slashes (List.replicate pending '\\' ++ text) := by
  induction pending, text using escape_induction with
  | nil pending => rw [escapeFrom, List.append_nil]
  | slash pending rest ih => rw [escapeFrom_slash, ih, replicate_append_slash]
  | tag pending rest htag ih =>
    rw [escapeFrom_tag pending htag, slashes_append_cons _ (by decide), ih,
      slashes_append_cons _ (by decide), List.replicate_zero, List.nil_append]
  | other pending c rest hc htag ih =>
    rw [escapeFrom_other pending hc htag, slashes_append_cons _ hc, ih, slashes_append_cons _ hc,
      List.replicate_zero, List.nil_append]

theorem toList_escape (text : String) :
    (escape text).toList =
      escapeFrom 0 text.toList ++ if slashes text.toList = 1 then ['\\'] else [] := by
  have hends (count : Nat) : (List.replicate count '\\').isSuffixOf (escapeFrom 0 text.toList) =
      decide (count ≤ slashes text.toList) := by
    rw [Bool.eq_iff_iff, List.isSuffixOf_iff_suffix, decide_eq_true_iff, replicate_isSuffix_iff,
      slashes_escapeFrom, List.replicate_zero, List.nil_append]
  have hone : ['\\'].isSuffixOf (escapeFrom 0 text.toList) = _ := hends 1
  have htwo : ['\\', '\\'].isSuffixOf (escapeFrom 0 text.toList) = _ := hends 2
  unfold escape
  rw [String.toList_ofList, hone, htwo]
  by_cases hslashes : slashes text.toList = 1
  · rw [if_pos hslashes, hslashes]
    rfl
  · rw [if_neg hslashes, List.append_nil, if_neg]
    simp only [Bool.and_eq_true, Bool.not_eq_true', decide_eq_true_iff, decide_eq_false_iff_not]
    omega

/-- A text is the same when it is escaped exactly if it has no tag and does not end in a lone backslash. -/
theorem escape_eq_self_iff {text : String} :
    escape text = text ↔ ¬HasTag text.toList ∧ slashes text.toList ≠ 1 := by
  rw [← String.toList_inj, toList_escape]
  constructor
  · intro heq
    have hlength := congrArg List.length heq
    rw [List.length_append] at hlength
    refine ⟨fun htag => ?_, fun hslash => ?_⟩
    · have hlonger := lt_length_escapeFrom htag 0
      omega
    · have hlong := le_length_escapeFrom 0 text.toList
      rw [if_pos hslash, List.length_singleton] at hlength
      omega
  · rintro ⟨htag, hslash⟩
    rw [escapeFrom_of_not_hasTag htag, if_neg hslash, List.append_nil, List.replicate_zero,
      List.nil_append]

/-! ### What is shown of it -/

theorem plainFrom_slash (pending : Nat) (rest : List Char) :
    plainFrom false pending ('\\' :: rest) = plainFrom false (pending + 1) rest := by
  rw [plainFrom, if_neg Bool.false_ne_true, if_pos rfl]

theorem plainFrom_replicate (pending count : Nat) (rest : List Char) :
    plainFrom false pending (List.replicate count '\\' ++ rest) =
      plainFrom false (pending + count) rest := by
  induction count generalizing pending with
  | zero => rfl
  | succ count ih =>
    rw [List.replicate_succ, List.cons_append, plainFrom_slash, ih, Nat.add_right_comm, Nat.add_assoc]

theorem plainFrom_other (pending : Nat) (hc : c ≠ '\\') (htag : ¬(c = '[' ∧ opensTag rest = true)) :
    plainFrom false pending (c :: rest) =
      List.replicate pending '\\' ++ c :: plainFrom false 0 rest := by
  have hwritten : (c = '[' && opensTag rest) = false := by simpa using htag
  rw [plainFrom, if_neg Bool.false_ne_true, if_neg hc, hwritten, if_neg Bool.false_ne_true]

/-- A text without backslashes and brackets is shown as it is, whatever follows. -/
theorem plainFrom_append_of_forall (htext : ∀ c ∈ text, c ≠ '\\' ∧ c ≠ '[') (rest : List Char) :
    plainFrom false 0 (text ++ rest) = text ++ plainFrom false 0 rest := by
  induction text with
  | nil => rfl
  | cons c text ih =>
    obtain ⟨hc, hbracket⟩ := htext c List.mem_cons_self
    rw [List.cons_append, plainFrom_other 0 hc (fun htag => hbracket htag.1),
      ih fun c hmem => htext c (List.mem_cons_of_mem _ hmem)]
    rfl

/-- After an even number of backslashes a tag is a tag, and half of them are shown. -/
theorem plainFrom_tag (pending : Nat) (htag : opensTag rest = true) :
    plainFrom false (2 * pending) ('[' :: rest) =
      List.replicate pending '\\' ++ plainFrom true 0 rest := by
  rw [plainFrom, if_neg Bool.false_ne_true, if_neg (by decide), htag, if_pos (by decide),
    if_neg (by omega), Nat.mul_div_cancel_left pending (by decide)]

/-- After an odd number of backslashes a tag is shown, and half of them with it. -/
theorem plainFrom_escaped_tag (pending : Nat) (htag : opensTag rest = true) :
    plainFrom false (2 * pending + 1) ('[' :: rest) =
      List.replicate pending '\\' ++ '[' :: plainFrom false 0 rest := by
  have hhalf : (2 * pending + 1) / 2 = pending := by omega
  rw [plainFrom, if_neg Bool.false_ne_true, if_neg (by decide), htag, if_pos (by decide),
    if_pos (by omega), hhalf]

/-- The text begins as a tag does, and the first bracket in it is one that closes. -/
theorem opensTag_eq (text : List Char) :
    opensTag text = (text.head?.any isTagStart && text.find? isBracket == some ']') := by
  cases text with
  | nil => rfl
  | cons first rest =>
    rw [List.head?_cons, Option.any_some, opensTag]
    cases hfirst : isTagStart first with
    | false => rfl
    | true =>
      have hbracket : ¬isBracket first = true := by
        intro hbracket
        obtain rfl | rfl : first = '[' ∨ first = ']' := by simpa [isBracket] using hbracket
        · exact absurd hfirst (by decide)
        · exact absurd hfirst (by decide)
      rw [List.find?_cons_of_neg hbracket]
      rfl

/-- Whether a bracket before some text opens a tag is the same when more text follows. -/
def LeavesTags (tail : List Char) : Prop := ∀ text, opensTag (text ++ tail) = opensTag text

/-- More text opens no tag if it does not begin as a tag would, and no bracket closes in it before one
opens. -/
theorem leavesTags_of_head? (hhead : tail.head?.any isTagStart = false)
    (hbracket : tail.find? isBracket ≠ some ']') : LeavesTags tail := by
  intro text
  rw [opensTag_eq, opensTag_eq, List.head?_append, List.find?_append]
  cases text with
  | nil => simp [hhead]
  | cons first rest =>
    cases (first :: rest).find? isBracket with
    | none => simp [hbracket]
    | some bracket => rfl

theorem leavesTags_bracket (tail : List Char) : LeavesTags ('[' :: tail) := by
  refine leavesTags_of_head? rfl ?_
  rw [List.find?_cons_of_pos rfl]
  decide

theorem LeavesTags.cons_slash (htail : LeavesTags tail) : LeavesTags ('\\' :: tail) := by
  have hslash : LeavesTags ['\\'] := leavesTags_of_head? rfl (by decide)
  intro text
  rw [List.append_cons, htail, hslash]

theorem find?_isBracket_replicate_append (count : Nat) (rest : List Char) :
    (List.replicate count '\\' ++ rest).find? isBracket = rest.find? isBracket := by
  have hnone : (List.replicate count '\\').find? isBracket = none := by
    rw [List.find?_eq_none]
    intro c hc
    rw [List.eq_of_mem_replicate hc]
    decide
  rw [List.find?_append, hnone, Option.none_or]

theorem find?_isBracket_escapeFrom (pending : Nat) (text : List Char) :
    (escapeFrom pending text).find? isBracket = text.find? isBracket := by
  induction pending, text using escape_induction with
  | nil pending =>
    rw [escapeFrom, ← List.append_nil (List.replicate _ _), find?_isBracket_replicate_append]
  | slash pending rest ih => rw [escapeFrom_slash, ih, List.find?_cons_of_neg (by decide)]
  | tag pending rest htag ih =>
    rw [escapeFrom_tag pending htag, find?_isBracket_replicate_append, List.find?_cons_of_pos rfl,
      List.find?_cons_of_pos rfl]
  | other pending c rest hc htag ih =>
    rw [escapeFrom_other pending hc htag, find?_isBracket_replicate_append, List.find?_cons,
      List.find?_cons, ih]

/-- Escaping makes no text begin as a tag would, and keeps no text from it. -/
theorem head?_any_escapeFrom (pending : Nat) (text : List Char) :
    (escapeFrom pending text).head?.any isTagStart =
      (List.replicate pending '\\' ++ text).head?.any isTagStart := by
  induction pending, text using escape_induction with
  | nil pending => rw [escapeFrom, List.append_nil]
  | slash pending rest ih => rw [escapeFrom_slash, ih, replicate_append_slash]
  | tag pending rest htag _ =>
    rw [escapeFrom_tag pending htag]
    cases pending with
    | zero => rfl
    | succ pending => rfl
  | other pending c rest hc htag _ =>
    rw [escapeFrom_other pending hc htag]
    cases pending with
    | zero => rfl
    | succ pending => rfl

theorem opensTag_escapeFrom (text : List Char) : opensTag (escapeFrom 0 text) = opensTag text := by
  rw [opensTag_eq, opensTag_eq, find?_isBracket_escapeFrom, head?_any_escapeFrom, List.replicate_zero,
    List.nil_append]

/-- What is shown of an escaped text is the text; the backslashes at its end depend on what follows. -/
theorem plainFrom_escapeFrom (htail : LeavesTags tail) (pending : Nat) (text : List Char) :
    plainFrom false 0 (escapeFrom pending text ++ tail) =
      withoutSlashes (List.replicate pending '\\' ++ text) ++
        plainFrom false (slashes (List.replicate pending '\\' ++ text)) tail := by
  have hopens (rest : List Char) : opensTag (escapeFrom 0 rest ++ tail) = opensTag rest := by
    rw [htail, opensTag_escapeFrom]
  induction pending, text using escape_induction with
  | nil pending =>
    rw [escapeFrom, List.append_nil, withoutSlashes_replicate, slashes_replicate, plainFrom_replicate,
      Nat.zero_add, List.nil_append]
  | slash pending rest ih => rw [escapeFrom_slash, ih, replicate_append_slash]
  | tag pending rest htag ih =>
    rw [escapeFrom_tag pending htag, List.append_assoc, plainFrom_replicate, Nat.zero_add,
      List.cons_append, plainFrom_escaped_tag pending ((hopens rest).trans htag), ih,
      withoutSlashes_append_cons _ (by decide), slashes_append_cons _ (by decide), List.replicate_zero,
      List.nil_append, List.append_assoc, List.cons_append]
  | other pending c rest hc htag ih =>
    rw [escapeFrom_other pending hc htag, List.append_assoc, plainFrom_replicate, Nat.zero_add,
      List.cons_append, plainFrom_other pending hc (by rwa [hopens]), ih, withoutSlashes_append_cons _ hc,
      slashes_append_cons _ hc, List.replicate_zero, List.nil_append, List.append_assoc, List.cons_append]

/-- An escaped text that a tag follows is shown as it is exactly if it does not end in several backslashes. -/
theorem plainFrom_escape_tag_iff {text : String} (htag : opensTag tail = true) :
    plainFrom false 0 ((escape text).toList ++ '[' :: tail) = text.toList ++ plainFrom true 0 tail ↔
      slashes text.toList ≤ 1 := by
  have htail : LeavesTags ('[' :: tail) := leavesTags_bracket tail
  have hparts : ∀ count, slashes text.toList = count →
      text.toList ++ plainFrom true 0 tail =
        withoutSlashes text.toList ++ (List.replicate count '\\' ++ plainFrom true 0 tail) := by
    rintro count rfl
    rw [← List.append_assoc, withoutSlashes_append]
  rw [toList_escape]
  split_ifs with hone
  · rw [List.append_assoc, List.singleton_append, plainFrom_escapeFrom htail.cons_slash,
      List.replicate_zero, List.nil_append, hparts 1 hone, hone, plainFrom_slash, plainFrom_tag 1 htag]
    exact iff_of_true rfl le_rfl
  · rw [List.append_nil, plainFrom_escapeFrom htail, List.replicate_zero, List.nil_append,
      hparts _ rfl, List.append_right_inj]
    obtain ⟨half, heven | hodd⟩ :
        ∃ half, slashes text.toList = 2 * half ∨ slashes text.toList = 2 * half + 1 :=
      ⟨slashes text.toList / 2, by omega⟩
    · rw [heven, plainFrom_tag half htag, List.append_left_inj, List.replicate_left_inj]
      omega
    · rw [hodd, plainFrom_escaped_tag half htag]
      refine iff_of_false (fun heq => ?_) (by omega)
      -- Half of the backslashes are shown, and then the bracket.
      have hbracket := congrArg (·[half]?) heq
      have hhalf : half < 2 * half + 1 := by omega
      simp [List.getElem?_append, hhalf] at hbracket

/-! ### What is lost where tags are not escaped -/

/-- Within a tag, nothing is shown up to the bracket that closes it. -/
theorem exists_plainFrom_inTag (hclose : ']' ∈ text) (tail : List Char) :
    ∃ rest, rest.length < text.length ∧
      plainFrom true 0 (text ++ tail) = plainFrom false 0 (rest ++ tail) := by
  induction text with
  | nil => exact absurd hclose List.not_mem_nil
  | cons c text ih =>
    rw [List.cons_append, plainFrom, if_pos rfl]
    by_cases hc : c = ']'
    · rw [hc]
      exact ⟨text, Nat.lt_succ_self _, rfl⟩
    · obtain ⟨rest, hlength, hrest⟩ := ih ((List.mem_cons.mp hclose).resolve_left (Ne.symm hc))
      have hopen : (c != ']') = true := bne_iff_ne.mpr hc
      rw [hopen]
      exact ⟨rest, Nat.lt_succ_of_lt hlength, hrest⟩

theorem mem_of_opensTag (htag : opensTag text = true) : ']' ∈ text := by
  rw [opensTag_eq, Bool.and_eq_true, beq_iff_eq] at htag
  exact List.mem_of_find?_eq_some htag.2

/-- A tag shows less than it is long, if what follows it shows no more. -/
theorem length_plainFrom_tag_lt (htail : LeavesTags tail) (htag : opensTag rest = true) (pending : Nat)
    {count : Nat} (hshown : ∀ text : List Char, text.length ≤ rest.length →
      (plainFrom false 0 (text ++ tail)).length ≤ text.length + count) :
    (plainFrom false pending ('[' :: (rest ++ tail))).length < pending + (rest.length + 1) + count := by
  have hopens : opensTag (rest ++ tail) = true := (htail rest).trans htag
  obtain ⟨half, rfl | rfl⟩ : ∃ half, pending = 2 * half ∨ pending = 2 * half + 1 :=
    ⟨pending / 2, by omega⟩
  · obtain ⟨back, hback, hclosed⟩ := exists_plainFrom_inTag (mem_of_opensTag htag) tail
    have hrest := hshown back hback.le
    rw [plainFrom_tag half hopens, hclosed, List.length_append, List.length_replicate]
    omega
  · have hrest := hshown rest le_rfl
    rw [plainFrom_escaped_tag half hopens, List.length_append, List.length_replicate, List.length_cons]
    omega

section Lost

variable (hc : c ≠ '\\') (hbracket : ¬(c = '[' ∧ opensTag tail = true)) (htail : LeavesTags (c :: tail))

include hc hbracket htail

/-- No text shows more than it is long. -/
theorem length_plainFrom_append_le (pending : Nat) (text : List Char) :
    (plainFrom false pending (text ++ c :: tail)).length ≤
      pending + text.length + (plainFrom false 0 (c :: tail)).length := by
  -- What follows a tag is no tail of what was read so far in one step, so the induction is on the length.
  induction hlength : text.length using Nat.strong_induction_on generalizing pending text with
  | _ length ih =>
  cases text with
  | nil =>
    rw [List.nil_append, plainFrom_other pending hc hbracket, plainFrom_other 0 hc hbracket]
    simp only [List.length_append, List.length_replicate, List.length_cons]
    omega
  | cons d rest =>
    subst hlength
    rw [List.cons_append]
    by_cases hslash : d = '\\'
    · have hrest := ih rest.length (Nat.lt_succ_self _) (pending + 1) rest rfl
      rw [hslash, plainFrom_slash, List.length_cons]
      omega
    by_cases htag : d = '[' ∧ opensTag rest = true
    · obtain ⟨rfl, htag⟩ := htag
      refine (length_plainFrom_tag_lt htail htag pending fun text htext => ?_).le
      exact (ih text.length (Nat.lt_succ_of_le htext) 0 text rfl).trans_eq (by rw [Nat.zero_add])
    · have hrest := ih rest.length (Nat.lt_succ_self _) 0 rest rfl
      rw [plainFrom_other pending hslash (by rwa [htail rest]), List.length_append, List.length_replicate,
        List.length_cons, List.length_cons]
      omega

/-- A text with a tag shows less than it is long. -/
theorem length_plainFrom_append_lt (htext : HasTag text) (pending : Nat) :
    (plainFrom false pending (text ++ c :: tail)).length <
      pending + text.length + (plainFrom false 0 (c :: tail)).length := by
  induction pending, text using escape_induction with
  | nil pending => exact absurd htext not_hasTag_nil
  | slash pending rest ih =>
    have hrest := ih ((hasTag_cons_iff.mp htext).resolve_left fun hopen => absurd hopen.1 (by decide))
    rw [List.cons_append, plainFrom_slash, List.length_cons]
    omega
  | tag pending rest htag _ =>
    refine length_plainFrom_tag_lt htail htag pending fun text _ => ?_
    exact (length_plainFrom_append_le hc hbracket htail 0 text).trans_eq (by rw [Nat.zero_add])
  | other pending d rest hd htag ih =>
    have hrest := ih ((hasTag_cons_iff.mp htext).resolve_left htag)
    rw [List.cons_append, plainFrom_other pending hd (by rwa [htail rest]), List.length_append,
      List.length_replicate, List.length_cons, List.length_cons]
    omega

/-- A text is shown as it is before anything but a tag or a backslash exactly if it has no tag. -/
theorem plainFrom_append_eq_iff :
    plainFrom false 0 (text ++ c :: tail) = text ++ plainFrom false 0 (c :: tail) ↔ ¬HasTag text := by
  constructor
  · intro heq htext
    have hless := length_plainFrom_append_lt hc hbracket htail htext 0
    rw [heq, List.length_append] at hless
    omega
  · intro htext
    have hescape : escapeFrom 0 text = text := escapeFrom_of_not_hasTag htext 0
    conv_lhs => rw [← hescape]
    rw [plainFrom_escapeFrom htail, List.replicate_zero, List.nil_append, plainFrom_other _ hc hbracket,
      plainFrom_other 0 hc hbracket, ← List.append_assoc, withoutSlashes_append, List.replicate_zero,
      List.nil_append]

end Lost

end EnvFill.Screen
