import EnvFill.Toml.Document
import Mathlib

/-!
# Readers of TOML go on at an end of their text

Each reader leaves an end of the text that it is given: it takes some characters away from the front, and
neither adds nor changes any.
-/

namespace EnvFill.Toml

variable {α β : Type} {text rest : List Char} {restOf : α → List Char} {other : β → List Char}
  {result : Option α}

/-- What a reader gives, if it gives anything, leaves an end of the text. -/
def LeavesEnd (text : List Char) (restOf : α → List Char) (result : Option α) : Prop :=
  ∀ a, result = some a → restOf a <:+ text

namespace LeavesEnd

theorem of_none : LeavesEnd text restOf none := by
  rintro _ ⟨⟩

theorem of_some {a : α} (ha : restOf a <:+ text) : LeavesEnd text restOf (some a) := by
  rintro _ ⟨⟩
  exact ha

/-- A part of the data is no text, and leaves none. -/
theorem nil (text : List Char) (result : Option α) : LeavesEnd text (fun _ => []) result :=
  fun _ _ => List.nil_suffix

theorem mono (hresult : LeavesEnd rest restOf result) (hrest : rest <:+ text) :
    LeavesEnd text restOf result :=
  fun a ha => (hresult a ha).trans hrest

theorem bind {next : α → Option β} (hresult : LeavesEnd text restOf result)
    (hnext : ∀ a, restOf a <:+ text → LeavesEnd text other (next a)) :
    LeavesEnd text other (result >>= next) := by
  intro b hb
  obtain ⟨a, ha, hb⟩ := Option.bind_eq_some_iff.mp hb
  exact hnext a (hresult a ha) b hb

theorem map {f : α → β} (hresult : LeavesEnd text restOf result)
    (hf : ∀ a, restOf a <:+ text → other (f a) <:+ text) : LeavesEnd text other (result.map f) := by
  intro b hb
  obtain ⟨a, ha, rfl⟩ := Option.map_eq_some_iff.mp hb
  exact hf a (hresult a ha)

theorem or {second : Option α} (hfirst : LeavesEnd text restOf result)
    (hsecond : LeavesEnd text restOf second) : LeavesEnd text restOf (result.or second) := by
  intro a ha
  rcases Option.or_eq_some_iff.mp ha with ha | ⟨-, ha⟩
  · exact hfirst a ha
  · exact hsecond a ha

theorem getD {result : Option (List Char)} (hresult : LeavesEnd text id result) :
    result.getD text <:+ text := by
  cases result with
  | none => exact List.suffix_rfl
  | some rest => exact hresult rest rfl

end LeavesEnd

theorem cons_suffix {c : Char} (hrest : c :: rest <:+ text) : rest <:+ text :=
  (List.suffix_cons c rest).trans hrest

theorem suffix_cons_of_suffix (c : Char) (hrest : rest <:+ text) : rest <:+ c :: text :=
  hrest.trans (List.suffix_cons c text)

theorem stepBetween_close {multiline : Bool} {c : Char} {after : List Char}
    (hstep : stepBetween multiline c rest = .close after) : after <:+ rest := by
  unfold stepBetween at hstep
  split_ifs at hstep
  · obtain rfl := Step.close.inj hstep
    exact List.suffix_rfl
  · obtain rfl := Step.close.inj hstep
    exact List.drop_suffix 2 rest

theorem step_close {multiline : Bool} {place : Place} {c : Char} {after : List Char}
    (hstep : step multiline place c rest = .close after) : after <:+ rest := by
  cases place with
  | between => exact stepBetween_close hstep
  | afterBackslash =>
    rw [step] at hstep
    split_ifs at hstep
    split at hstep <;> cases hstep
  | inCodePoint digits value =>
    rw [step] at hstep
    split at hstep
    · cases hstep
    · dsimp only at hstep
      split_ifs at hstep
  | beforeLineEnd =>
    rw [step] at hstep
    split_ifs at hstep
  | afterLineEnd =>
    rw [step] at hstep
    split_ifs at hstep
    exact stepBetween_close hstep

theorem leavesEnd_readEscaped (multiline : Bool) (place : Place) (text : List Char) :
    LeavesEnd text Prod.snd (readEscaped multiline place text) := by
  induction text generalizing place with
  | nil => exact .of_none
  | cons c rest ih =>
    rw [readEscaped]
    split
    · exact .of_none
    · exact ((ih _).mono (List.suffix_cons c rest)).map fun _ hafter => hafter
    · rename_i after hstep
      exact .of_some (suffix_cons_of_suffix c (step_close hstep))

theorem leavesEnd_readLiteral (multiline : Bool) (text : List Char) :
    LeavesEnd text Prod.snd (readLiteral multiline text) := by
  induction text with
  | nil => exact .of_none
  | cons c rest ih =>
    rw [readLiteral]
    split_ifs
    · exact .of_some (suffix_cons_of_suffix c (List.drop_suffix 2 rest))
    · exact .of_some (List.suffix_cons c rest)
    · refine (ih.mono (List.suffix_cons c rest)).bind ?_
      rintro ⟨text, after⟩ hafter
      exact .of_some hafter
    · exact .of_none

theorem leavesEnd_readLine? (text : List Char) : LeavesEnd text Prod.snd (readLine? text) := by
  unfold readLine?
  split
  · exact (leavesEnd_readEscaped _ _ _).mono (List.suffix_cons _ _)
  · exact (leavesEnd_readLiteral _ _).mono (List.suffix_cons _ _)
  · exact .of_none

theorem skipFirstLineEnd_suffix (text : List Char) : skipFirstLineEnd text <:+ text := by
  unfold skipFirstLineEnd
  split
  · exact List.suffix_cons _ _
  · exact List.suffix_rfl

theorem leavesEnd_takeExtraQuotes (opening : List Char) {read : Option (List Char × List Char)}
    (hread : LeavesEnd (skipFirstLineEnd text) Prod.snd read) (quote : Char) :
    LeavesEnd (opening ++ text) Prod.snd
      (read.map fun parts => takeExtraQuotes quote parts.1 parts.2) := by
  refine (hread.map fun parts hparts => ?_).mono
    ((skipFirstLineEnd_suffix text).trans (List.suffix_append opening text))
  exact (List.drop_suffix _ parts.2).trans hparts

theorem leavesEnd_readString? (text : List Char) : LeavesEnd text Prod.snd (readString? text) := by
  unfold readString?
  split
  · exact leavesEnd_takeExtraQuotes ['"', '"', '"'] (leavesEnd_readEscaped _ _ _) '"'
  · exact leavesEnd_takeExtraQuotes ['\'', '\'', '\''] (leavesEnd_readLiteral _ _) '\''
  · exact leavesEnd_readLine? _

theorem skipDigits_suffix (isDigit : Char → Bool) (text : List Char) :
    skipDigits isDigit text <:+ text := by
  fun_induction skipDigits isDigit text with
  | case1 c rest _ ih => exact suffix_cons_of_suffix '_' (suffix_cons_of_suffix c ih)
  | case2 => exact List.suffix_rfl
  | case3 c rest _ _ ih => exact suffix_cons_of_suffix c ih
  | case4 => exact List.suffix_rfl
  | case5 => exact List.suffix_rfl

theorem leavesEnd_digits? (isDigit : Char → Bool) (text : List Char) :
    LeavesEnd text id (digits? isDigit text) := by
  unfold digits?
  split
  · split
    · exact .of_some (suffix_cons_of_suffix _ (skipDigits_suffix isDigit _))
    · exact .of_none
  · exact .of_none

theorem skipSign_suffix (text : List Char) : skipSign text <:+ text := by
  unfold skipSign
  split
  · exact List.suffix_cons _ _
  · exact List.suffix_cons _ _
  · exact List.suffix_rfl

theorem skipFraction_suffix (text : List Char) : skipFraction text <:+ text := by
  unfold skipFraction
  split
  · exact ((leavesEnd_digits? isDigit _).mono (List.suffix_cons _ _)).getD
  · exact List.suffix_rfl

theorem skipExponent_suffix (text : List Char) : skipExponent text <:+ text := by
  unfold skipExponent
  split
  · exact ((leavesEnd_digits? isDigit _).mono (suffix_cons_of_suffix _ (skipSign_suffix _))).getD
  · exact ((leavesEnd_digits? isDigit _).mono (suffix_cons_of_suffix _ (skipSign_suffix _))).getD
  · exact List.suffix_rfl

theorem leavesEnd_based? (text : List Char) : LeavesEnd text id (based? text) := by
  unfold based?
  split
  · exact (leavesEnd_digits? _ _).mono (suffix_cons_of_suffix _ (List.suffix_cons _ _))
  · exact (leavesEnd_digits? _ _).mono (suffix_cons_of_suffix _ (List.suffix_cons _ _))
  · exact (leavesEnd_digits? _ _).mono (suffix_cons_of_suffix _ (List.suffix_cons _ _))
  · exact .of_none

theorem leavesEnd_afterWord? (word : String) (text : List Char) :
    LeavesEnd text id (afterWord? word text) := by
  unfold afterWord?
  split
  · exact .of_some (List.drop_suffix _ _)
  · exact .of_none

theorem leavesEnd_special? (text : List Char) : LeavesEnd text id (special? text) :=
  ((leavesEnd_afterWord? _ _).or (leavesEnd_afterWord? _ _)).mono (skipSign_suffix text)

theorem leavesEnd_twoDigits? (text : List Char) : LeavesEnd text Prod.snd (twoDigits? text) := by
  unfold twoDigits?
  split
  · split
    · exact .of_some (suffix_cons_of_suffix _ (List.suffix_cons _ _))
    · exact .of_none
  · exact .of_none

theorem leavesEnd_boundedDigits? (least greatest : Nat) (text : List Char) :
    LeavesEnd text Prod.snd (boundedDigits? least greatest text) := by
  refine (leavesEnd_twoDigits? text).bind ?_
  rintro ⟨value, rest⟩ hrest
  dsimp only
  split
  · exact .of_some hrest
  · exact .of_none

theorem leavesEnd_after? (c : Char) (text : List Char) : LeavesEnd text id (after? c text) := by
  unfold after?
  split
  · split
    · exact .of_some (List.suffix_cons _ _)
    · exact .of_none
  · exact .of_none

theorem leavesEnd_time? (text : List Char) : LeavesEnd text id (time? text) := by
  refine (leavesEnd_boundedDigits? 0 23 text).bind fun hours hhours => ?_
  refine ((leavesEnd_after? ':' hours.2).mono hhours).bind fun afterHours hafterHours => ?_
  refine ((leavesEnd_boundedDigits? 0 59 afterHours).mono hafterHours).bind fun minutes hminutes => ?_
  refine ((leavesEnd_after? ':' minutes.2).mono hminutes).bind fun afterMinutes hafterMinutes => ?_
  refine ((leavesEnd_boundedDigits? 0 59 afterMinutes).mono hafterMinutes).bind ?_
  rintro ⟨seconds, rest⟩ hrest
  dsimp only
  split
  · rename_i c more
    refine .of_some ?_
    change (if isDigit c then more.dropWhile isDigit else '.' :: c :: more) <:+ text
    split
    · exact (List.dropWhile_suffix _).trans (cons_suffix (cons_suffix hrest))
    · exact hrest
  · exact .of_some hrest

theorem skipOffset_suffix (text : List Char) : skipOffset text <:+ text := by
  unfold skipOffset
  split
  · exact List.suffix_cons _ _
  · exact List.suffix_cons _ _
  · rename_i c rest _ _
    split
    · refine LeavesEnd.getD ?_
      refine ((leavesEnd_boundedDigits? 0 23 rest).mono (List.suffix_cons c rest)).bind fun hours hhours => ?_
      refine ((leavesEnd_after? ':' hours.2).mono hhours).bind fun after hafter => ?_
      refine ((leavesEnd_boundedDigits? 0 59 after).mono hafter).bind fun minutes hminutes => ?_
      exact .of_some hminutes
    · exact List.suffix_rfl
  · exact List.suffix_rfl

theorem leavesEnd_date? (text : List Char) : LeavesEnd text Prod.snd (date? text) := by
  refine (leavesEnd_twoDigits? text).bind fun century hcentury => ?_
  refine ((leavesEnd_twoDigits? century.2).mono hcentury).bind fun year hyear => ?_
  refine ((leavesEnd_after? '-' year.2).mono hyear).bind fun afterYear hafterYear => ?_
  refine ((leavesEnd_boundedDigits? 1 12 afterYear).mono hafterYear).bind fun month hmonth => ?_
  refine ((leavesEnd_after? '-' month.2).mono hmonth).bind fun afterMonth hafterMonth => ?_
  refine ((leavesEnd_boundedDigits? 1 31 afterMonth).mono hafterMonth).bind fun day hday => ?_
  exact .of_some hday

theorem skipTimeOfDate_suffix (text : List Char) : skipTimeOfDate text <:+ text := by
  unfold skipTimeOfDate
  split
  · rename_i c rest
    split
    · refine LeavesEnd.getD (((leavesEnd_time? rest).mono (List.suffix_cons c rest)).map ?_)
      exact fun after hafter => (skipOffset_suffix after).trans hafter
    · exact List.suffix_rfl
  · exact List.suffix_rfl

theorem leavesEnd_word? (text : List Char) : LeavesEnd text id (word? text) :=
  (((leavesEnd_afterWord? _ _).or (leavesEnd_afterWord? _ _)).or (leavesEnd_special? _)).or
    (leavesEnd_time? _)

theorem skipLineBlanks_suffix (text : List Char) : skipLineBlanks text <:+ text :=
  List.dropWhile_suffix _

theorem leavesEnd_keyPart? (text : List Char) : LeavesEnd text Prod.snd (keyPart? text) := by
  unfold keyPart?
  split
  · exact leavesEnd_readLine? text
  · exact .of_some (List.dropWhile_suffix _)

theorem leavesEnd_keyParts? (parts : Nat) (text : List Char) :
    LeavesEnd text Prod.snd (keyParts? parts text) := by
  induction parts generalizing text with
  | zero => exact .of_none
  | succ parts ih =>
    refine (leavesEnd_keyPart? text).bind ?_
    rintro ⟨part, rest⟩ hrest
    have hblanks := (skipLineBlanks_suffix rest).trans hrest
    dsimp only
    split
    · rename_i more hmore
      rw [hmore] at hblanks
      refine ((ih _).mono ((skipLineBlanks_suffix more).trans (cons_suffix hblanks))).bind ?_
      rintro ⟨key, after⟩ hafter
      exact .of_some hafter
    · exact .of_some hblanks

theorem leavesEnd_key? (text : List Char) : LeavesEnd text Prod.snd (key? text) :=
  leavesEnd_keyParts? _ text

theorem leavesEnd_skipFiller (inComment : Bool) (text : List Char) :
    LeavesEnd text id (skipFiller inComment text) := by
  induction text generalizing inComment with
  | nil => exact .of_some List.suffix_rfl
  | cons c rest ih =>
    have hrest : ∀ inComment, LeavesEnd (c :: rest) id (skipFiller inComment rest) :=
      fun inComment => (ih inComment).mono (List.suffix_cons c rest)
    rw [skipFiller]
    split_ifs
    · exact hrest false
    · exact hrest true
    · exact .of_none
    · exact hrest false
    · exact hrest true
    · exact .of_some List.suffix_rfl

theorem leavesEnd_lineEnd? (text : List Char) : LeavesEnd text id (Document.lineEnd? text) := by
  have hblanks := skipLineBlanks_suffix text
  unfold Document.lineEnd?
  split
  · rename_i rest hrest
    rw [hrest] at hblanks
    dsimp only
    split
    · exact .of_some ((List.drop_suffix _ rest).trans (cons_suffix hblanks))
    · exact .of_none
  · exact .of_some hblanks

end EnvFill.Toml
