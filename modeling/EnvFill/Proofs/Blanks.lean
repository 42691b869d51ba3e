import EnvFill.EnvFile.Line
import Mathlib.Data.List.DropRight

/-!
# Blanks around a line and around its key

A line is cut at its first `=` after the blanks at its ends are gone. As `=` is not blank, the cut
may as well be made first: the key is what stands before the `=`, stripped. Everything about keys is
proved from that form, `split?_eq`.
-/

namespace EnvFill.Text

section EndOfList

variable {α β : Type} {p : α → Bool}

theorem dropEndWhile_eq_rdropWhile (text : List α) : dropEndWhile p text = text.rdropWhile p := rfl

theorem dropEndWhile_append_of_forall (front : List α) {back : List α}
    (hback : ∀ a ∈ back, p a = true) : dropEndWhile p (front ++ back) = dropEndWhile p front := by
  unfold dropEndWhile
  rw [List.reverse_append, List.dropWhile_append_of_pos]
  simpa using hback

theorem dropEndWhile_append_cons (front : List α) {a : α} (ha : p a = false) (back : List α) :
    dropEndWhile p (front ++ a :: back) = front ++ a :: dropEndWhile p back := by
  unfold dropEndWhile
  rw [List.reverse_append, List.reverse_cons, List.append_assoc, List.dropWhile_append]
  by_cases hall : (back.reverse.dropWhile p).isEmpty
  · have hnil := List.isEmpty_iff.mp hall
    rw [if_pos hall, List.singleton_append, List.dropWhile_cons_of_neg (by simp [ha]), hnil]
    simp
  · rw [if_neg hall]
    simp

theorem dropEndWhile_concat (front : List α) {a : α} (ha : ¬p a = true) :
    dropEndWhile p (front ++ [a]) = front ++ [a] :=
  List.rdropWhile_concat_neg p front a ha

theorem dropEndWhile_append_of_eq {front : List α} (hfront : dropEndWhile p front = front)
    (back : List α) : dropEndWhile p (front ++ back) = front ++ dropEndWhile p back := by
  obtain ⟨tail, hback, htail⟩ :
      ∃ tail, back = dropEndWhile p back ++ tail ∧ ∀ a ∈ tail, p a = true :=
    ⟨back.rtakeWhile p, List.rdropWhile_append_rtakeWhile.symm,
      fun _ ha => List.mem_rtakeWhile_imp ha⟩
  conv_lhs => rw [hback, ← List.append_assoc]
  rw [dropEndWhile_append_of_forall _ htail]
  by_cases hnil : dropEndWhile p back = []
  · rw [hnil, List.append_nil, hfront]
  · have hlast := List.rdropWhile_last_not p back hnil
    rw [← List.dropLast_concat_getLast hnil, ← List.append_assoc]
    exact dropEndWhile_concat _ hlast

theorem exists_append_dropEndWhile (p : α → Bool) (text : List α) :
    ∃ tail, text = dropEndWhile p text ++ tail ∧ ∀ a ∈ tail, p a = true :=
  ⟨text.rtakeWhile p, List.rdropWhile_append_rtakeWhile.symm,
    fun _ ha => List.mem_rtakeWhile_imp ha⟩

theorem dropEndWhile_map {q : β → Bool} {f : α → β} (hf : ∀ a, q (f a) = p a) (text : List α) :
    dropEndWhile q (text.map f) = (dropEndWhile p text).map f := by
  have hcomp : q ∘ f = p := funext hf
  unfold dropEndWhile
  rw [← List.map_reverse, List.dropWhile_map, hcomp, List.map_reverse]

end EndOfList

section CutAtFirst

variable {α : Type} {isMark : α → Bool} {text before after : List α}

theorem cutAtFirst_eq_none_iff :
    cutAtFirst isMark text = none ↔ ∀ a ∈ text, isMark a = false := by
  induction text with
  | nil => simp [cutAtFirst]
  | cons a rest ih =>
    unfold cutAtFirst
    by_cases ha : isMark a = true
    · simp [ha]
    · simp [ha, ih]

theorem cutAtFirst_append_cons {mark : α} (hbefore : ∀ a ∈ before, isMark a = false)
    (hmark : isMark mark = true) :
    cutAtFirst isMark (before ++ mark :: after) = some (before, after) := by
  induction before with
  | nil => simp [cutAtFirst, hmark]
  | cons a before ih =>
    have ha : isMark a = false := hbefore a List.mem_cons_self
    have hrest := ih fun b hb => hbefore b (List.mem_cons_of_mem a hb)
    simp [cutAtFirst, ha, hrest]

theorem exists_of_cutAtFirst (hcut : cutAtFirst isMark text = some (before, after)) :
    ∃ mark, text = before ++ mark :: after ∧ isMark mark = true ∧
      ∀ a ∈ before, isMark a = false := by
  induction text generalizing before with
  | nil => simp [cutAtFirst] at hcut
  | cons a rest ih =>
    unfold cutAtFirst at hcut
    by_cases ha : isMark a = true
    · rw [if_pos ha] at hcut
      obtain ⟨rfl, rfl⟩ := Prod.mk.inj (Option.some.inj hcut)
      exact ⟨a, rfl, ha, by simp⟩
    · rw [if_neg ha] at hcut
      obtain ⟨⟨front, back⟩, hrest, heq⟩ := Option.map_eq_some_iff.mp hcut
      obtain ⟨rfl, rfl⟩ := Prod.mk.inj heq
      obtain ⟨mark, rfl, hmark, hfront⟩ := ih hrest
      refine ⟨mark, rfl, hmark, ?_⟩
      intro b hb
      rcases List.mem_cons.mp hb with rfl | hb
      · simpa using ha
      · exact hfront b hb

end CutAtFirst

section Strip

variable {α : Type} [Character α]

abbrev IsBlankLetter (a : α) : Prop := Character.satisfies isBlank a = true

theorem strip_append_of_blank (front : List α) {back : List α} (hback : ∀ a ∈ back, IsBlankLetter a) :
    strip (front ++ back) = strip front := by
  unfold strip
  rw [List.dropWhile_append]
  by_cases hall : (front.dropWhile (Character.satisfies isBlank)).isEmpty
  · have hnil := dropWhile_eq_nil_iff_forall.mpr hback
    rw [if_pos hall, hnil, List.isEmpty_iff.mp hall]
  · rw [if_neg hall, dropEndWhile_append_of_forall _ hback]

theorem strip_dropEndWhile (text : List α) :
    strip (dropEndWhile (Character.satisfies isBlank) text) = strip text := by
  obtain ⟨tail, htext, htail⟩ := exists_append_dropEndWhile (Character.satisfies isBlank) text
  have hstrip := strip_append_of_blank (dropEndWhile (Character.satisfies isBlank) text) htail
  rw [← htext] at hstrip
  exact hstrip.symm

theorem strip_cons_of_not_blank {first : α} (hfirst : ¬IsBlankLetter first) (rest : List α) :
    strip (first :: rest) =
      first :: dropEndWhile (Character.satisfies isBlank) rest := by
  unfold strip
  rw [List.dropWhile_cons_of_neg hfirst]
  exact dropEndWhile_append_cons [] (by simpa using hfirst) rest

theorem strip_append_cons (before : List α) {mark : α} (hmark : ¬IsBlankLetter mark)
    (after : List α) :
    strip (before ++ mark :: after) =
      before.dropWhile (Character.satisfies isBlank) ++
        mark :: dropEndWhile (Character.satisfies isBlank) after := by
  have hmark' : Character.satisfies isBlank mark = false := by simpa using hmark
  unfold strip
  rw [List.dropWhile_append]
  by_cases hall : (before.dropWhile (Character.satisfies isBlank)).isEmpty
  · rw [if_pos hall, List.isEmpty_iff.mp hall, List.dropWhile_cons_of_neg hmark]
    exact dropEndWhile_append_cons [] hmark' after
  · rw [if_neg hall, dropEndWhile_append_cons _ hmark']

theorem strip_eq_self {text : List α} (hhead : ∀ a ∈ text.head?, ¬IsBlankLetter a)
    (hlast : ∀ a ∈ text.getLast?, ¬IsBlankLetter a) : strip text = text := by
  have hfront : text.dropWhile (Character.satisfies isBlank) = text := by
    cases text with
    | nil => rfl
    | cons first rest => exact List.dropWhile_cons_of_neg (hhead first rfl)
  unfold strip
  rw [hfront, dropEndWhile_eq_rdropWhile, List.rdropWhile_eq_self_iff]
  intro hne
  exact hlast _ (List.getLast?_eq_some_getLast hne)

/-- What is left when leading blanks are gone begins with something else. -/
theorem not_blank_of_dropWhile {text : List α} {first : α} {rest : List α}
    (hrest : text.dropWhile (Character.satisfies isBlank) = first :: rest) :
    ¬IsBlankLetter first := by
  have hne : text.dropWhile (Character.satisfies isBlank) ≠ [] := by simp [hrest]
  have hnot := List.head_dropWhile_not (Character.satisfies isBlank) hne
  simpa [hrest] using hnot

theorem strip_dropWhile (text : List α) :
    strip (text.dropWhile (Character.satisfies isBlank)) = strip text := by
  unfold strip
  rw [List.dropWhile_idempotent]

theorem strip_prefix_dropWhile (text : List α) :
    strip text <+: text.dropWhile (Character.satisfies isBlank) :=
  List.rdropWhile_prefix _ _

theorem isInfix_strip (text : List α) : strip text <:+: text :=
  (strip_prefix_dropWhile text).isInfix.trans (List.dropWhile_suffix _).isInfix

theorem mem_of_mem_strip {text : List α} {a : α} (ha : a ∈ strip text) : a ∈ text :=
  (isInfix_strip text).subset ha

theorem dropWhile_eq_self_of_strip {text : List α} (htext : strip text = text) :
    text.dropWhile (Character.satisfies isBlank) = text := by
  have hinit := strip_prefix_dropWhile text
  rw [htext] at hinit
  exact (List.dropWhile_suffix _).eq_of_length_le hinit.length_le

theorem strip_strip (text : List α) : strip (strip text) = strip text :=
  (strip_dropEndWhile _).trans (strip_dropWhile text)

/-- Only blanks are stripped. -/
theorem mem_strip_or_blank {text : List α} {a : α} (ha : a ∈ text) : a ∈ strip text ∨ IsBlankLetter a := by
  rw [← List.takeWhile_append_dropWhile (p := Character.satisfies isBlank) (l := text)] at ha
  rcases List.mem_append.mp ha with hfront | hrest
  · exact .inr (List.mem_takeWhile_imp hfront)
  · obtain ⟨tail, htext, htail⟩ := exists_append_dropEndWhile (Character.satisfies isBlank)
      (text.dropWhile (Character.satisfies isBlank))
    rw [htext] at hrest
    exact (List.mem_append.mp hrest).imp_right (htail a)

/-- Blanks are the same in every alphabet that the text is written in. -/
theorem strip_map {β : Type} [Character β] {f : α → β}
    (hf : ∀ a, Character.char? (f a) = Character.char? a) (text : List α) :
    strip (text.map f) = (strip text).map f := by
  have hblank : ∀ a, Character.satisfies isBlank (f a) = Character.satisfies isBlank a := by
    intro a
    rw [Character.satisfies, hf, Character.satisfies]
  have hcomp : Character.satisfies isBlank ∘ f = Character.satisfies isBlank := funext hblank
  unfold strip
  rw [List.dropWhile_map, hcomp, dropEndWhile_map hblank]

end Strip

theorem isBlank_eq_false_of_isAlphanum {c : Char} (hc : c.isAlphanum = true) : isBlank c = false := by
  have hranges : ((decide (c.val ≥ 'A'.val ∧ c.val ≤ 'Z'.val) || (c.val ≥ 'a'.val && c.val ≤ 'z'.val)) ||
      (c.val ≥ '0'.val && c.val ≤ '9'.val)) = true := hc
  by_contra hblank
  rw [Bool.not_eq_false] at hblank
  simp only [Bool.or_eq_true, Bool.and_eq_true, decide_eq_true_eq, ge_iff_le, UInt32.le_iff_toNat_le]
    at hranges
  simp only [isBlank, Bool.or_eq_true, Bool.and_eq_true, decide_eq_true_eq, beq_iff_eq] at hblank
  have hval : c.toNat = c.val.toNat := rfl
  simp at hranges
  omega

end EnvFill.Text

namespace EnvFill.EnvFile.Line

open Text

variable {α : Type} [Character α]

/-- The key that stands before an `=`: stripped, not empty and not a comment. -/
def keyIn? (before : List α) : Option (List α) :=
  match strip before with
  | [] => none
  | first :: rest => if Character.is '#' first then none else some (first :: rest)

theorem keyIn?_eq_some_iff {before key : List α} :
    keyIn? before = some key ↔
      strip before = key ∧ key ≠ [] ∧ ∀ first ∈ key.head?, Character.is '#' first = false := by
  unfold keyIn?
  cases strip before with
  | nil =>
    simp only [reduceCtorEq, false_iff]
    rintro ⟨rfl, hne, -⟩
    exact hne rfl
  | cons first rest =>
    dsimp only
    split
    · rename_i hcomment
      simp only [reduceCtorEq, false_iff]
      rintro ⟨rfl, -, hfirst⟩
      exact absurd (hfirst first rfl) (by simp [hcomment])
    · rename_i hfirst
      rw [Option.some.injEq]
      refine ⟨?_, And.left⟩
      rintro rfl
      exact ⟨rfl, List.cons_ne_nil first rest, by simpa using hfirst⟩

theorem keyIn?_map {β : Type} [Character β] {f : α → β}
    (hf : ∀ a, Character.char? (f a) = Character.char? a) (before : List α) :
    keyIn? (before.map f) = (keyIn? before).map (List.map f) := by
  unfold keyIn?
  rw [strip_map hf]
  cases strip before with
  | nil => rfl
  | cons first rest =>
    have hcomment : Character.is '#' (f first) = Character.is '#' first := by
      rw [Character.is, hf, Character.is]
    rw [List.map_cons]
    dsimp only
    rw [hcomment]
    split <;> rfl

theorem not_blank_of_is {c : Char} {a : α} (hc : isBlank c = false)
    (ha : Character.is c a = true) : ¬IsBlankLetter a := by
  rw [Character.eq_ofChar_of_is ha]
  simp [IsBlankLetter, hc]

/-- **The cut comes first.** A line sets the key before its first `=`, if one stands there. -/
theorem split?_eq (line : List α) :
    split? line =
      (cutAtFirst (Character.is '=') line).bind fun parts =>
        (keyIn? parts.1).map fun key => (key, strip parts.2) := by
  cases hcut : cutAtFirst (Character.is '=') line with
  | none =>
    have hnone : cutAtFirst (Character.is '=') (strip line) = none := by
      rw [cutAtFirst_eq_none_iff] at hcut ⊢
      exact fun a ha => hcut a (mem_of_mem_strip ha)
    unfold split?
    cases hstrip : strip line with
    | nil => rfl
    | cons first rest =>
      rw [hstrip] at hnone
      simp [hnone]
  | some parts =>
    obtain ⟨before, after⟩ := parts
    obtain ⟨mark, rfl, hmark, hbefore⟩ := exists_of_cutAtFirst hcut
    have hnot : ¬IsBlankLetter mark := not_blank_of_is (by decide) hmark
    have hstrip := strip_append_cons before hnot after
    rw [Option.bind_some, split?]
    cases hrest : before.dropWhile (Character.satisfies isBlank) with
    | nil =>
      have hkey : keyIn? before = none := by
        rw [keyIn?, ← strip_dropWhile, hrest]
        rfl
      have hequals : mark = Character.ofChar '=' := Character.eq_ofChar_of_is hmark
      rw [hrest, List.nil_append] at hstrip
      rw [hkey, hstrip, hequals]
      simp [cutAtFirst, strip, dropEndWhile]
    | cons first rest =>
      have hfirst := not_blank_of_dropWhile hrest
      have hkey := strip_cons_of_not_blank hfirst rest
      have hmem : ∀ a ∈ first :: rest, Character.is '=' a = false := by
        intro a ha
        rw [← hrest] at ha
        exact hbefore a ((List.dropWhile_sublist _).subset ha)
      have hinner :
          cutAtFirst (Character.is '=')
              (first :: (rest ++ mark :: dropEndWhile (Character.satisfies isBlank) after)) =
            some (first :: rest, dropEndWhile (Character.satisfies isBlank) after) :=
        cutAtFirst_append_cons hmem hmark
      rw [hrest, List.cons_append] at hstrip
      rw [hstrip, keyIn?, ← strip_dropWhile before, hrest, hkey]
      by_cases hcomment : Character.is '#' first = true
      · simp [hcomment]
      · simp [hcomment, hinner, hkey, strip_dropEndWhile]

end EnvFill.EnvFile.Line
