import EnvFill.Proofs.LineEnds
import EnvFill.Proofs.PastedValues

/-!
# Pasted texts and the texts of files

A pasted text is read as the text of a file is, except that settings of unusual keys are left out and
values end where a remark begins. How the text is cut into lines makes no difference, and neither do the
lines that begin with `//`, since no usual key begins so.
-/

namespace EnvFill.EnvFile

open Text

variable {text line : List Char}

/-- What comes before the first `#` that follows a space, that space left out. -/
def beforeRemark (text : List Char) : List Char :=
  text.take (text.tails.findIdx fun rest => [' ', '#'].isPrefixOf rest)

theorem cutRemark_eq (text : List Char) :
    cutRemark text = if HasRemark text then some (beforeRemark text) else none := by
  by_cases hremark : HasRemark text
  · rw [if_pos hremark]
    induction text with
    | nil => exact absurd hremark (by decide)
    | cons c rest ih =>
      by_cases hc : c = ' ' ∧ rest.head? = some '#'
      · obtain ⟨rfl, hhead⟩ := hc
        obtain ⟨remark, rfl⟩ := List.head?_eq_some_iff.mp hhead
        simp [cutRemark, beforeRemark, List.findIdx_cons]
      · have hstart : [' ', '#'].isPrefixOf (c :: rest) = false := by
          rw [Bool.eq_false_iff, Ne, List.isPrefixOf_iff_prefix]
          rintro ⟨remark, hprefix⟩
          obtain ⟨rfl, rfl⟩ := List.cons.inj hprefix
          exact hc ⟨rfl, rfl⟩
        have hrest : HasRemark rest := (hasRemark_cons_iff.mp hremark).resolve_left hc
        rw [cutRemark_cons hc, ih hrest, Option.map_some, beforeRemark, beforeRemark, List.tails_cons,
          List.findIdx_cons, hstart, cond_false, List.take_succ_cons]
  · rw [if_neg hremark, cutRemark_eq_none_iff.mpr hremark]

def withoutRemark (value : String) : String :=
  if HasRemark value.toList then String.ofList (strip (beforeRemark value.toList)) else value

theorem ofList_pastedValue (value : List Char) :
    String.ofList (pastedValue value) = withoutRemark (String.ofList (Value.unquote value)) := by
  rw [pastedValue, withoutRemark, cutRemark_eq, String.toList_ofList]
  split <;> simp_all

def textSetting? (line : List Char) : Option (String × String) :=
  (Line.split? line).map fun (key, value) => (String.ofList key, String.ofList (Value.unquote value))

theorem ofText_eq (text : String) :
    Entries.ofText text = OrderedMap.ofList ((lines text.toList).filterMap textSetting?) := by
  rw [Entries.ofText, Entries.ofLines, List.map_filterMap]
  rfl

theorem textSetting?_append_cr (line : List Char) :
    textSetting? (line ++ ['\r']) = textSetting? line := by
  rw [textSetting?, textSetting?, split?_append_cr]

/-- The setting that a pasted line makes if `//` begins no comment. -/
def plainSetting? (line : List Char) : Option (String × String) :=
  match Line.split? line with
  | some (key, value) =>
    if isPlainKey key then some (String.ofList key, String.ofList (pastedValue value)) else none
  | none => none

theorem plainSetting?_eq (line : List Char) :
    plainSetting? line = ((textSetting? line).filter fun pair => isPlainKey pair.1.toList).map
      fun pair => (pair.1, withoutRemark pair.2) := by
  unfold plainSetting? textSetting?
  cases Line.split? line with
  | none => rfl
  | some parts =>
    obtain ⟨key, value⟩ := parts
    rw [Option.map_some, Option.filter_some, String.toList_ofList]
    dsimp only
    split
    · rw [Option.map_some, ofList_pastedValue]
    · rfl

/-- A key that begins with a slash is no usual one. -/
theorem isPlainKey_of_split?_slash {rest key value : List Char} (hstrip : strip line = '/' :: rest)
    (hsplit : Line.split? line = some (key, value)) : isPlainKey key = false := by
  have hslash : ¬IsBlankLetter '/' := by decide
  rw [Line.split?, hstrip] at hsplit
  dsimp only at hsplit
  rw [if_neg (by decide), cutAtFirst, if_neg (by decide)] at hsplit
  cases hcut : cutAtFirst (Character.is '=') rest with
  | none => simp [hcut] at hsplit
  | some parts =>
    rw [hcut, Option.map_some] at hsplit
    dsimp only at hsplit
    rw [strip_cons_of_not_blank hslash] at hsplit
    obtain ⟨rfl, -⟩ := Prod.mk.inj (Option.some.inj hsplit)
    rfl

/-- Lines that begin with `//` make no setting anyway. -/
theorem plainSetting?_eq_pastedSetting? (line : List Char) :
    plainSetting? line = pastedSetting? line := by
  rw [pastedSetting?]
  split_ifs with hcomment
  · obtain ⟨rest, hrest⟩ := List.isPrefixOf_iff_prefix.mp hcomment
    rw [plainSetting?]
    cases hsplit : Line.split? line with
    | none => rfl
    | some parts => simp [isPlainKey_of_split?_slash hrest.symm hsplit]
  · rfl

theorem pastedSetting?_append_cr (line : List Char) :
    pastedSetting? (line ++ ['\r']) = pastedSetting? line := by
  rw [← plainSetting?_eq_pastedSetting?, ← plainSetting?_eq_pastedSetting?, plainSetting?,
    plainSetting?, split?_append_cr]

/-- Lines that end at line feeds alone keep the carriage return before it. -/
theorem forall₂_pastedLines (text : List Char) :
    List.Forall₂ IsSameLine (pastedLines text) (lines text) := by
  fun_induction pastedLines text with
  | case1 => exact .cons (.refl []) .nil
  | case2 rest ih => exact .cons (.inr rfl) ih
  | case3 rest ih => exact .cons (.refl []) ih
  | case4 c rest _ hlf ih =>
    rw [lines_cons hlf]
    exact forall₂_consFirst ih c

theorem filterMap_pastedSetting?_lines (text : List Char) :
    (lines text).filterMap pastedSetting? = (pastedLines text).filterMap pastedSetting? :=
  filterMap_eq_of_forall₂ pastedSetting?_append_cr (forall₂_pastedLines text)

/-- **A pasted text is read as the text of a file**, with unusual keys left out and remarks cut off. That
it is cut into lines at a carriage return and a line feed changes nothing, and neither does passing over
lines that begin with `//`. -/
theorem toList_ofPaste (text : String) :
    (Entries.ofPaste text).toList =
        ((Entries.ofText text).toList.filter fun pair => isPlainKey pair.1.toList).map
          (fun pair => (pair.1, withoutRemark pair.2)) ∧
      Entries.ofPaste text = OrderedMap.ofList ((lines text.toList).filterMap pastedSetting?) ∧
        ∀ line, plainSetting? line = pastedSetting? line := by
  have hlines : Entries.ofPaste text =
      OrderedMap.ofList ((lines text.toList).filterMap pastedSetting?) := by
    rw [filterMap_pastedSetting?_lines, Entries.ofPaste]
  refine ⟨?_, hlines, plainSetting?_eq_pastedSetting?⟩
  have hsettings : (lines text.toList).filterMap pastedSetting? =
      (((lines text.toList).filterMap textSetting?).filter fun pair => isPlainKey pair.1.toList).map
        fun pair => (pair.1, withoutRemark pair.2) := by
    rw [List.filter_filterMap, List.map_filterMap]
    refine List.filterMap_congr fun line _ => ?_
    rw [← plainSetting?_eq_pastedSetting?, plainSetting?_eq]
  rw [hlines, hsettings, OrderedMap.toList_ofList_map fun _ value => withoutRemark value,
    OrderedMap.toList_ofList_filter fun key : String => isPlainKey key.toList, ofText_eq]

/-- A repeated key, a carriage return within a line, a key that begins with `//` and a remark in quotes. -/
example : (Entries.ofPaste "B=1 # one\r\nA=2\r3\n//C=4\nD.E=5\nB=\" 6 #7\"").toList =
    [("B", "6"), ("A", "2\r3")] := by
  cbv

end EnvFill.EnvFile
