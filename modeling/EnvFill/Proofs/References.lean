import EnvFill.Name.Rule
import EnvFill.Proofs.Matches

/-!
# References in a text

Every rule looks for a name between things that cannot be part of one. So what it captures at a place
is the longest name there, no reference begins inside another, and a search through a text captures
exactly the names that are referred to at its places.
-/

namespace EnvFill.Name

open Regex Text

section Lists

variable {α : Type}

theorem append_inj_of_forall {p : α → Bool} {front front' back back' : List α}
    (hfront : ∀ a ∈ front, p a = true) (hfront' : ∀ a ∈ front', p a = true)
    (hback : back.head?.any p = false) (hback' : back'.head?.any p = false)
    (happend : front ++ back = front' ++ back') : front = front' ∧ back = back' := by
  have htake : ∀ {front back : List α}, (∀ a ∈ front, p a = true) →
      back.head?.any p = false → (front ++ back).takeWhile p = front := by
    intro front back hfront hback
    rw [List.takeWhile_append_of_pos hfront]
    cases back with
    | nil => simp
    | cons a back =>
      have ha : ¬p a = true := by simpa using hback
      rw [List.takeWhile_cons_of_neg ha, List.append_nil]
  have heq : front = front' := by
    calc front = (front ++ back).takeWhile p := (htake hfront hback).symm
      _ = (front' ++ back').takeWhile p := by rw [happend]
      _ = front' := htake hfront' hback'
  subst heq
  exact ⟨rfl, List.append_cancel_left happend⟩

/-- An end of a text in two parts begins in the one or in the other. -/
theorem ends_append_cases {inner front back : List α} (hinner : inner <:+ front ++ back) :
    inner <:+ back ∨ ∃ part, part ≠ [] ∧ part <:+ front ∧ inner = part ++ back := by
  rcases List.suffix_or_suffix_of_suffix hinner (List.suffix_append front back) with hback | hback
  · exact .inl hback
  · obtain ⟨part, rfl⟩ := hback
    by_cases hpart : part = []
    · exact .inl (by simp [hpart])
    · obtain ⟨before, happend⟩ := hinner
      rw [← List.append_assoc] at happend
      exact .inr ⟨part, hpart, ⟨before, List.append_cancel_right happend⟩, rfl⟩

end Lists

def IsVariableName (name : List Char) : Prop :=
  ∃ first others, name = first :: others ∧ isCapital first = true ∧ others ≠ [] ∧
    others.all isNameChar = true

def Fits (sets : List (List Char)) (text : List Char) : Prop := List.Forall₂ (fun c set => c ∈ set) text sets

structure Form where
  marker : List Char
  isSpaced : Bool
  opening : List (List Char)
  lead : List Char
  closing : List (List Char)
  isWhole : Bool

/-- After `before`, `taken` is a reference to `name`; `rest` comes after it. -/
inductive Form.Refers (form : Form) (before : Option Char) (rest name : List Char) :
    List Char → Prop where
  | mk (gap opening closing : List Char) (hgap : ∀ c ∈ gap, isBlank c = true)
      (hspaced : form.isSpaced = false → gap = []) (hopening : Fits form.opening opening)
      (hname : IsVariableName name) (hlead : form.lead <+: name)
      (hlonger : form.lead.length < name.length) (hclosing : Fits form.closing closing)
      (hend : (closing ++ rest).head?.any isNameChar = false)
      (hwhole : form.isWhole = true →
        (lastOr before (form.marker ++ gap ++ opening)).any isWord = false ∧
          (closing ++ rest).head?.any isWord = false) :
      Refers form before rest name (form.marker ++ (gap ++ (opening ++ (name ++ closing))))

/-- What a form needs so that its references cannot be confused. -/
structure Form.IsClear (form : Form) : Prop where
  around : ∀ set ∈ form.opening ++ form.closing, ∀ c ∈ set,
    c ∉ form.marker ∧ isBlank c = false ∧ isNameChar c = false
  solid : ∀ c ∈ form.marker, isBlank c = false
  borderless : ∀ size < form.marker.length, 0 < size → ¬form.marker.drop size <+: form.marker
  marked : form.marker ≠ [] → ∃ c ∈ form.marker, isNameChar c = false
  ended : ∀ c ∈ form.marker.head?, isNameChar c = true → form.closing ≠ []
  unmarked : form.marker = [] →
    form.isWhole = true ∧ form.isSpaced = false ∧ form.opening = [] ∧ form.closing = []
  spaced : form.isSpaced = true → form.opening ≠ []
  unassigned : '=' ∉ form.marker ∧ ∀ set ∈ form.opening ++ form.closing, '=' ∉ set

theorem isNameChar_of_isCapital {c : Char} (hc : isCapital c = true) : isNameChar c = true := by
  simp [isNameChar, hc]

theorem isWord_of_isNameChar {c : Char} (hc : isNameChar c = true) : isWord c = true := by
  have hword : c.isAlphanum = true ∨ c = '_' := by
    simp only [isNameChar, isCapital, Bool.or_eq_true, Bool.and_eq_true, decide_eq_true_eq,
      beq_iff_eq] at hc
    rcases hc with (⟨hlow, hhigh⟩ | ⟨hlow, hhigh⟩) | hc
    · refine .inl ?_
      simp only [Char.isAlphanum, Char.isAlpha, Char.isUpper, Bool.or_eq_true,
        decide_eq_true_eq]
      exact .inl (.inl ⟨hlow, hhigh⟩)
    · refine .inl ?_
      simp only [Char.isAlphanum, Char.isDigit, Bool.or_eq_true, Bool.and_eq_true,
        decide_eq_true_eq]
      exact .inr ⟨hlow, hhigh⟩
    · exact .inr hc
  rcases hword with hword | rfl
  · simp [isWord, hword]
  · simp [isWord]

theorem IsVariableName.isNameChar {name : List Char} (hname : IsVariableName name) :
    ∀ c ∈ name, isNameChar c = true := by
  obtain ⟨first, others, rfl, hfirst, -, hothers⟩ := hname
  intro c hc
  rcases List.mem_cons.mp hc with rfl | hc
  · exact isNameChar_of_isCapital hfirst
  · exact List.all_eq_true.mp hothers c hc

theorem IsVariableName.ne_nil {name : List Char} (hname : IsVariableName name) : name ≠ [] := by
  obtain ⟨first, others, rfl, -⟩ := hname
  exact List.cons_ne_nil first others

theorem exists_mem_of_fits {sets : List (List Char)} {text : List Char} (hfits : Fits sets text)
    {c : Char} (hc : c ∈ text) : ∃ set ∈ sets, c ∈ set := by
  induction hfits with
  | nil => simp at hc
  | cons hfirst hrest ih =>
    rcases List.mem_cons.mp hc with rfl | hc
    · exact ⟨_, List.mem_cons_self, hfirst⟩
    · obtain ⟨set, hset, hmem⟩ := ih hc
      exact ⟨set, List.mem_cons_of_mem _ hset, hmem⟩

theorem Fits.length_eq {sets : List (List Char)} {text : List Char} (hfits : Fits sets text) :
    text.length = sets.length :=
  List.Forall₂.length_eq hfits

section Form

variable {form : Form} {before before' : Option Char} {taken taken' rest rest' name name' : List Char}

theorem Form.IsClear.opening_append (hclear : form.IsClear) {opening : List Char}
    (hopening : Fits form.opening opening) (hspaced : form.isSpaced = true) (text : List Char) :
    (opening ++ text).head?.any isBlank = false := by
  cases opening with
  | nil => exact absurd (List.length_eq_zero_iff.mp hopening.length_eq.symm) (hclear.spaced hspaced)
  | cons first opening =>
    obtain ⟨set, hset, hmem⟩ := exists_mem_of_fits hopening List.mem_cons_self
    exact (hclear.around set (List.mem_append_left _ hset) first hmem).2.1

/-- At a place there is at most one reference. -/
theorem Form.Refers.unique (hclear : form.IsClear) (hrefers : form.Refers before rest name taken)
    (hrefers' : form.Refers before' rest' name' taken') (htext : taken ++ rest = taken' ++ rest') :
    name = name' := by
  obtain ⟨gap, opening, closing, hgap, hspaced, hopening, hname, -, -, -, hend, -⟩ := hrefers
  obtain ⟨gap', opening', closing', hgap', hspaced', hopening', hname', -, -, -, hend', -⟩ := hrefers'
  simp only [List.append_assoc] at htext
  have hafter := List.append_cancel_left htext
  have hopened : opening ++ (name ++ (closing ++ rest)) =
      opening' ++ (name' ++ (closing' ++ rest')) := by
    cases hspace : form.isSpaced with
    | false =>
      rw [hspaced hspace, hspaced' hspace] at hafter
      exact hafter
    | true =>
      exact (append_inj_of_forall hgap hgap' (hclear.opening_append hopening hspace _)
        (hclear.opening_append hopening' hspace _) hafter).2
  have hlength : opening.length = opening'.length :=
    hopening.length_eq.trans hopening'.length_eq.symm
  have hnamed := (List.append_inj hopened hlength).2
  exact (append_inj_of_forall hname.isNameChar hname'.isNameChar hend hend' hnamed).1

theorem Form.Refers.isVariableName (hrefers : form.Refers before rest name taken) :
    IsVariableName name := by
  obtain ⟨_, _, _, -, -, -, hname, -, -, -, -, -⟩ := hrefers
  exact hname

theorem Form.Refers.marker_begins (hrefers : form.Refers before rest name taken) :
    form.marker <+: taken := by
  obtain ⟨_, _, _, -, -, -, -, -, -, -, -, -⟩ := hrefers
  exact List.prefix_append _ _

/-- The marker does not overlap with itself. -/
theorem Form.IsClear.not_begins_of_ends (hclear : form.IsClear) {part tail : List Char}
    (hne : part ≠ []) (hproper : part ≠ form.marker) (hended : part <:+ form.marker) :
    ¬form.marker <+: part ++ tail := by
  obtain ⟨skipped, hskipped⟩ := hended
  intro hbegun
  have hpos : 0 < skipped.length := by
    rw [List.length_pos_iff]
    rintro rfl
    exact hproper hskipped
  have hlength : skipped.length < form.marker.length := by
    rw [← hskipped, List.length_append]
    have := List.length_pos_iff.mpr hne
    omega
  apply hclear.borderless skipped.length hlength hpos
  have hdrop : form.marker.drop skipped.length = part := by rw [← hskipped, List.drop_left]
  rw [hdrop]
  apply List.prefix_of_prefix_length_le (List.prefix_append part _) hbegun
  rw [← hskipped, List.length_append]
  omega

/-- The marker does not begin inside a name: it would have to go on beyond the end of the name. -/
theorem Form.IsClear.not_prefix_of_name (hclear : form.IsClear) {part closing : List Char}
    (hne : part ≠ []) (hpart : ∀ c ∈ part, isNameChar c = true) (hclosing : Fits form.closing closing)
    (hend : (closing ++ rest).head?.any isNameChar = false) (hmarker : form.marker ≠ []) :
    ¬form.marker <+: part ++ (closing ++ rest) := by
  rintro ⟨others, hothers⟩
  obtain ⟨mark, hmark, hmarkChar⟩ := hclear.marked hmarker
  have hstem := List.takeWhile_append_dropWhile (p := isNameChar) (l := form.marker)
  have hdrop : form.marker.dropWhile isNameChar ≠ [] := by
    intro hnil
    rw [dropWhile_eq_nil_iff_forall] at hnil
    exact absurd (hnil mark hmark) (by simp [hmarkChar])
  obtain ⟨stop, after, hstop⟩ := List.exists_cons_of_ne_nil hdrop
  have hstopChar : isNameChar stop = false := by
    have hnot := List.head?_dropWhile_not isNameChar form.marker
    rw [hstop] at hnot
    simpa using hnot
  have hstopMem : stop ∈ form.marker := by
    rw [← hstem, hstop]
    simp
  rw [← hstem, hstop, List.append_assoc] at hothers
  obtain ⟨hname, hafter⟩ := append_inj_of_forall (p := isNameChar)
    (fun c hc => List.mem_takeWhile_imp hc) hpart (by simpa using hstopChar) hend hothers
  -- The marker begins like the name, so the form has something after the name.
  have hclosed : form.closing ≠ [] := by
    obtain ⟨first, part, rfl⟩ := List.exists_cons_of_ne_nil hne
    refine hclear.ended first ?_ (hpart first List.mem_cons_self)
    rw [← hstem, hname]
    rfl
  obtain ⟨close, closing, rfl⟩ : ∃ close others, closing = close :: others := by
    refine List.exists_cons_of_ne_nil ?_
    rintro rfl
    exact hclosed (List.length_eq_zero_iff.mp hclosing.length_eq.symm)
  obtain rfl : stop = close := (List.cons.inj hafter).1
  obtain ⟨set, hset, hmem⟩ := exists_mem_of_fits hclosing List.mem_cons_self
  exact (hclear.around set (List.mem_append_right _ hset) stop hmem).1 hstopMem

/-- Without a marker, a reference is the name as a whole word. -/
theorem Form.Refers.of_marker_nil (hclear : form.IsClear) (hmarker : form.marker = [])
    (hrefers : form.Refers before rest name taken) :
    taken = name ∧ before.any isWord = false ∧ rest.head?.any isWord = false := by
  obtain ⟨gap, opening, closing, -, hspaced, hopening, -, -, -, hclosing, -, hwhole⟩ := hrefers
  obtain ⟨hedged, hspace, hnoOpening, hnoClosing⟩ := hclear.unmarked hmarker
  have hnil : ∀ {text : List Char}, Fits [] text → text = [] :=
    fun hfits => List.length_eq_zero_iff.mp hfits.length_eq
  rw [hnoOpening] at hopening
  rw [hnoClosing] at hclosing
  simpa [hspaced hspace, hnil hopening, hnil hclosing, hmarker] using hwhole hedged

/-- A whole word has no reference inside. -/
theorem Form.Refers.not_inside_word (hclear : form.IsClear) (hmarker : form.marker = [])
    {front inner : List Char} (hfront : front ≠ [])
    (hrefers : form.Refers before rest name (front ++ inner))
    (hrefers' : form.Refers (lastOr before front) rest' name' taken') : False := by
  obtain ⟨hname, -, -⟩ := hrefers.of_marker_nil hclear hmarker
  obtain ⟨-, hedge, -⟩ := hrefers'.of_marker_nil hclear hmarker
  obtain ⟨front, c, rfl⟩ := List.eq_nil_or_concat front |>.resolve_left hfront
  have hc : isNameChar c = true :=
    hrefers.isVariableName.isNameChar c (by rw [← hname]; simp)
  simp [lastOr, isWord_of_isNameChar hc] at hedge

/-- No reference begins inside another. -/
theorem Form.Refers.not_inside (hclear : form.IsClear) {front inner : List Char} (hfront : front ≠ [])
    (hinner : inner ≠ []) (hrefers : form.Refers before rest name (front ++ inner))
    (hrefers' : form.Refers (lastOr before front) rest' name' taken')
    (htext : inner ++ rest = taken' ++ rest') : False := by
  by_cases hmarker : form.marker = []
  · exact hrefers.not_inside_word hclear hmarker hfront hrefers'
  have hbegun : form.marker <+: inner ++ rest :=
    htext ▸ hrefers'.marker_begins.trans (List.prefix_append _ _)
  generalize htaken : front ++ inner = taken at hrefers
  obtain ⟨gap, opening, closing, hgap, -, hopening, hname, -, -, hclosing, hend, -⟩ := hrefers
  obtain ⟨first, marker, hfirst⟩ := List.exists_cons_of_ne_nil hmarker
  have hfirstMem : first ∈ form.marker := by simp [hfirst]
  -- Where the inner reference begins, there is the first character of the marker.
  have hbegins : ∀ part tail, part ≠ [] → inner = part ++ tail → first ∈ part := by
    intro part tail hne heq
    obtain ⟨c, part, rfl⟩ := List.exists_cons_of_ne_nil hne
    rw [heq, hfirst, List.cons_append, List.cons_append, List.cons_prefix_cons] at hbegun
    exact hbegun.1 ▸ List.mem_cons_self
  have haround : ∀ set ∈ form.opening ++ form.closing, first ∉ set :=
    fun set hset hmem => (hclear.around set hset first hmem).1 hfirstMem
  have hended : inner <:+ form.marker ++ (gap ++ (opening ++ (name ++ closing))) := ⟨front, htaken⟩
  rcases ends_append_cases hended with hended | ⟨part, hne, hbegin, rfl⟩
  · rcases ends_append_cases hended with hended | ⟨part, hne, hbegin, heq⟩
    · rcases ends_append_cases hended with hended | ⟨part, hne, hbegin, heq⟩
      · rcases ends_append_cases hended with hended | ⟨part, hne, hbegin, rfl⟩
        · have hmem := hended.subset (hbegins inner [] hinner (List.append_nil _).symm)
          obtain ⟨set, hset, hmem⟩ := exists_mem_of_fits hclosing hmem
          exact haround set (List.mem_append_right _ hset) hmem
        · rw [List.append_assoc] at hbegun
          exact hclear.not_prefix_of_name hne
            (fun c hc => hname.isNameChar c (hbegin.subset hc)) hclosing hend hmarker hbegun
      · have hmem := hbegin.subset (hbegins part _ hne heq)
        obtain ⟨set, hset, hmem⟩ := exists_mem_of_fits hopening hmem
        exact haround set (List.mem_append_left _ hset) hmem
    · have hblank := hgap first (hbegin.subset (hbegins part _ hne heq))
      rw [hclear.solid first hfirstMem] at hblank
      exact Bool.false_ne_true hblank
  · rw [List.append_assoc] at hbegun
    refine hclear.not_begins_of_ends hne ?_ hbegin hbegun
    rintro rfl
    exact hfront (List.append_left_eq_self.mp htaken)

end Form

end EnvFill.Name
