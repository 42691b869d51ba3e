import EnvFill.Proofs.Captures
import EnvFill.Proofs.LineEnds

/-!
# References that are kept

References stay references when line ends are written in another way, and when lines are added below
that hold keys without values. Such lines refer to nothing but their keys.
-/

namespace EnvFill.Name

open Regex Text

variable {form : Form} {before : Option Char} {taken rest name front : List Char}

theorem lf_not_mem_of_not_blank {text : List Char} (htext : ∀ c ∈ text, isBlank c = false) :
    '\n' ∉ text := by
  intro hmem
  have hblank := htext '\n' hmem
  revert hblank
  decide

theorem getLast?_ne_cr_of_not_blank {text : List Char} (htext : ∀ c ∈ text, isBlank c = false) :
    text.getLast? ≠ some '\r' := by
  intro hlast
  have hblank := htext '\r' (List.mem_of_getLast? hlast)
  revert hblank
  decide

theorem head?_append_ne_lf {text : List Char} (hne : text ≠ []) (htext : ∀ c ∈ text, isBlank c = false)
    (back : List Char) : (text ++ back).head? ≠ some '\n' := by
  obtain ⟨c, text, rfl⟩ := List.exists_cons_of_ne_nil hne
  intro hhead
  obtain rfl := Option.some.inj hhead
  exact lf_not_mem_of_not_blank htext List.mem_cons_self

theorem isBlank_eq_false_of_isNameChar {c : Char} (hc : isNameChar c = true) : isBlank c = false := by
  by_contra hblank
  rw [Bool.not_eq_false] at hblank
  simp only [isNameChar, isCapital, Bool.or_eq_true, Bool.and_eq_true, decide_eq_true_eq,
    beq_iff_eq, Char.le_def, UInt32.le_iff_toNat_le] at hc
  simp only [isBlank, Bool.or_eq_true, Bool.and_eq_true, decide_eq_true_eq, beq_iff_eq] at hblank
  have hval : c.toNat = c.val.toNat := rfl
  rcases hc with (hc | hc) | rfl
  · have hlow : 'A'.val.toNat = 65 := rfl
    have hhigh : 'Z'.val.toNat = 90 := rfl
    omega
  · have hlow : '0'.val.toNat = 48 := rfl
    have hhigh : '9'.val.toNat = 57 := rfl
    omega
  · revert hblank
    decide

section Refers

variable {opening closing taken' rest' : List Char}

theorem IsVariableName.isBlank (hname : IsVariableName name) : ∀ c ∈ name, isBlank c = false :=
  fun c hc => isBlank_eq_false_of_isNameChar (hname.isNameChar c hc)

theorem Form.IsClear.isBlank_of_opening (hclear : form.IsClear) (hopening : Fits form.opening opening) :
    ∀ c ∈ opening, isBlank c = false := by
  intro c hc
  obtain ⟨set, hset, hmem⟩ := exists_mem_of_fits hopening hc
  exact (hclear.around set (List.mem_append_left _ hset) c hmem).2.1

theorem Form.IsClear.isBlank_of_closing (hclear : form.IsClear) (hclosing : Fits form.closing closing) :
    ∀ c ∈ closing, isBlank c = false := by
  intro c hc
  obtain ⟨set, hset, hmem⟩ := exists_mem_of_fits hclosing hc
  exact (hclear.around set (List.mem_append_right _ hset) c hmem).2.1

theorem Form.Refers.isBlank_head (hclear : form.IsClear) {c : Char}
    (hrefers : form.Refers before rest name (c :: taken)) : isBlank c = false := by
  by_cases hmarker : form.marker = []
  · obtain ⟨rfl, -, -⟩ := hrefers.of_marker_nil hclear hmarker
    exact hrefers.isVariableName.isBlank c List.mem_cons_self
  · obtain ⟨first, marker, hfirst⟩ := List.exists_cons_of_ne_nil hmarker
    have hbegun := hrefers.marker_begins
    rw [hfirst, List.cons_prefix_cons] at hbegun
    exact hbegun.1 ▸ hclear.solid first (by simp [hfirst])

theorem Form.Refers.ne_nil (hclear : form.IsClear) (hrefers : form.Refers before rest name taken) :
    taken ≠ [] := by
  rintro rfl
  by_cases hmarker : form.marker = []
  · obtain ⟨rfl, -, -⟩ := hrefers.of_marker_nil hclear hmarker
    exact hrefers.isVariableName.ne_nil rfl
  · exact hmarker (List.prefix_nil.mp hrefers.marker_begins)

theorem Form.Refers.getLast?_ne_cr (hclear : form.IsClear)
    (hrefers : form.Refers before rest name taken) : taken.getLast? ≠ some '\r' := by
  obtain ⟨gap, opening, closing, -, -, -, hname, -, -, hclosing, -, -⟩ := hrefers
  have hblank : ∀ c ∈ name ++ closing, isBlank c = false := fun c hc =>
    (List.mem_append.mp hc).elim (hname.isBlank c) (hclear.isBlank_of_closing hclosing c)
  rw [← List.append_assoc, ← List.append_assoc,
    List.getLast?_append_of_ne_nil _ (List.append_ne_nil_of_left_ne_nil hname.ne_nil closing)]
  exact getLast?_ne_cr_of_not_blank hblank

/-- What a reference asks of its gap, of what it stands behind and of what comes after it. -/
def Form.Joins (form : Form) (before : Option Char) (rest gap opening closing : List Char) : Prop :=
  (∀ c ∈ gap, isBlank c = true) ∧ (form.isSpaced = false → gap = []) ∧
    (closing ++ rest).head?.any isNameChar = false ∧
      (form.isWhole = true →
        (lastOr before (form.marker ++ gap ++ opening)).any isWord = false ∧
          (closing ++ rest).head?.any isWord = false)

/-- None of this sees carriage returns that are added. -/
theorem Form.joins_iff_of_sameLines (form : Form) (before : Option Char) {gap gap' : List Char}
    (hgap : SameLines gap gap') (hrest : SameLines rest rest') :
    form.Joins before rest' gap' opening closing ↔ form.Joins before rest gap opening closing := by
  have hfollowing := (SameLines.refl closing).append hrest
  have hfront := ((SameLines.refl form.marker).append hgap).append (SameLines.refl opening)
  unfold Form.Joins lastOr
  rw [hgap.forall_isBlank_iff, hgap.eq_nil_iff, hfront.getLast?_eq,
    hfollowing.head?_any_eq (by decide) (by decide), hfollowing.head?_any_eq (by decide) (by decide)]

theorem Form.Refers.of_sameLines (hclear : form.IsClear)
    (hrefers : form.Refers before rest name taken) (htaken : SameLines taken taken')
    (hrest : SameLines rest rest') : form.Refers before rest' name taken' := by
  obtain ⟨gap, opening, closing, hgap, hspaced, hopening, hname, hlead, hlonger, hclosing, hend,
    hwhole⟩ := hrefers
  obtain ⟨marker, _, rfl, hmarker, hafter⟩ := htaken.exists_append
  obtain ⟨gap', _, rfl, hgap', hafter⟩ := hafter.exists_append
  obtain ⟨opening', _, rfl, hopening', hafter⟩ := hafter.exists_append
  obtain ⟨name', closing', rfl, hname', hclosing'⟩ := hafter.exists_append
  obtain rfl := hmarker.eq_of_lf_not_mem (lf_not_mem_of_not_blank hclear.solid)
  obtain rfl := hopening'.eq_of_lf_not_mem
    (lf_not_mem_of_not_blank (hclear.isBlank_of_opening hopening))
  obtain rfl := hname'.eq_of_lf_not_mem (lf_not_mem_of_not_blank hname.isBlank)
  obtain rfl := hclosing'.eq_of_lf_not_mem
    (lf_not_mem_of_not_blank (hclear.isBlank_of_closing hclosing))
  obtain ⟨hgap, hspaced, hend, hwhole⟩ :=
    (form.joins_iff_of_sameLines before hgap' hrest).mpr ⟨hgap, hspaced, hend, hwhole⟩
  exact .mk _ _ _ hgap hspaced hopening hname hlead hlonger hclosing hend hwhole

/-- Without the carriage returns a reference stays one too. -/
theorem Form.Refers.of_sameLines_right (hclear : form.IsClear)
    (hrefers : form.Refers before rest' name taken') (htaken : SameLines taken taken')
    (hrest : SameLines rest rest') : form.Refers before rest name taken := by
  obtain ⟨gap', opening', closing', hgap, hspaced, hopening, hname, hlead, hlonger, hclosing, hend,
    hwhole⟩ := hrefers
  have hopeningBlank := hclear.isBlank_of_opening hopening
  have hclosingBlank := hclear.isBlank_of_closing hclosing
  have hnamed : (opening' ++ (name ++ closing')).head? ≠ some '\n' := by
    rw [← List.append_assoc]
    refine head?_append_ne_lf ?_ (fun c hc => ?_) closing'
    · simp [hname.ne_nil]
    · exact (List.mem_append.mp hc).elim (hopeningBlank c) (hname.isBlank c)
  -- None of the cuts is after an added carriage return: beside each stands something that is no blank.
  obtain ⟨marker, _, rfl, hmarker, hafter⟩ := htaken.exists_append_right
    fun hlast => absurd hlast (getLast?_ne_cr_of_not_blank hclear.solid)
  obtain ⟨gap, _, rfl, hgap', hafter⟩ := hafter.exists_append_right fun _ => hnamed
  obtain ⟨opening, _, rfl, hopening', hafter⟩ := hafter.exists_append_right
    fun hlast => absurd hlast (getLast?_ne_cr_of_not_blank hopeningBlank)
  obtain ⟨named, closing, rfl, hname', hclosing'⟩ := hafter.exists_append_right
    fun hlast => absurd hlast (getLast?_ne_cr_of_not_blank hname.isBlank)
  have hsame : ∀ {text text' : List Char}, SameLines text text' → (∀ c ∈ text', isBlank c = false) →
      text' = text := by
    intro text text' hsame hblank
    exact hsame.eq_of_lf_not_mem (hsame.lf_mem_iff.not.mp (lf_not_mem_of_not_blank hblank))
  obtain rfl := hsame hmarker hclear.solid
  obtain rfl := hsame hopening' hopeningBlank
  obtain rfl := hsame hname' hname.isBlank
  obtain rfl := hsame hclosing' hclosingBlank
  obtain ⟨hgap, hspaced, hend, hwhole⟩ :=
    (form.joins_iff_of_sameLines before hgap' hrest).mp ⟨hgap, hspaced, hend, hwhole⟩
  exact .mk _ _ _ hgap hspaced hopening hname hlead hlonger hclosing hend hwhole

/-- What comes after a reference may change, unless a word would go on there. -/
theorem Form.Refers.change_rest (hrefers : form.Refers before rest name taken)
    (hrest : rest'.head? = rest.head? ∨ rest'.head?.any isWord = false) :
    form.Refers before rest' name taken := by
  obtain ⟨gap, opening, closing, hgap, hspaced, hopening, hname, hlead, hlonger, hclosing, hend,
    hwhole⟩ := hrefers
  have hhead : (closing ++ rest').head? = (closing ++ rest).head? ∨
      (closing ++ rest').head?.any isWord = false := by
    cases closing with
    | nil => exact hrest
    | cons => exact .inl rfl
  refine .mk _ _ _ hgap hspaced hopening hname hlead hlonger hclosing ?_ fun hwhole' =>
    ⟨(hwhole hwhole').1, ?_⟩
  · rcases hhead with hhead | hword
    · rwa [hhead]
    · exact any_isNameChar_eq_false hword
  · rcases hhead with hhead | hword
    · rw [hhead]
      exact (hwhole hwhole').2
    · exact hword

/-- A reference goes on in the next line only up to a character that opens a name. -/
theorem Form.Refers.exists_opening (hclear : form.IsClear) {before' : List Char}
    {after : List Char} (hrefers : form.Refers before rest name (before' ++ '\n' :: after)) :
    ∃ set ∈ form.opening, ∃ c ∈ set, c ∈ after := by
  generalize htaken : before' ++ '\n' :: after = taken at hrefers
  obtain ⟨gap, opening, closing, -, hspaced, hopening, hname, -, -, hclosing, -, -⟩ := hrefers
  have hended : '\n' :: after <:+ form.marker ++ (gap ++ (opening ++ (name ++ closing))) :=
    ⟨before', htaken⟩
  have hlf : ∀ {text : List Char}, (∀ c ∈ text, isBlank c = false) → '\n' ∉ text :=
    lf_not_mem_of_not_blank
  have hbegins : ∀ {part tail : List Char}, part ≠ [] → '\n' :: after = part ++ tail → '\n' ∈ part := by
    intro part tail hne heq
    obtain ⟨c, part, rfl⟩ := List.exists_cons_of_ne_nil hne
    rw [(List.cons.inj heq).1]
    exact List.mem_cons_self
  rcases ends_append_cases hended with hended | ⟨part, hne, hbegin, heq⟩
  · rcases ends_append_cases hended with hended | ⟨part, hne, hbegin, heq⟩
    · have hmem := hended.subset List.mem_cons_self
      rw [List.mem_append, List.mem_append] at hmem
      rcases hmem with hmem | hmem | hmem
      · exact absurd hmem (hlf (hclear.isBlank_of_opening hopening))
      · exact absurd hmem (hlf hname.isBlank)
      · exact absurd hmem (hlf (hclear.isBlank_of_closing hclosing))
    · have hspace : form.isSpaced = true := by
        by_contra hnot
        rw [hspaced (by simpa using hnot)] at hbegin
        exact hne (List.suffix_nil.mp hbegin)
      cases opening with
      | nil => exact absurd (List.length_eq_zero_iff.mp hopening.length_eq.symm) (hclear.spaced hspace)
      | cons c opening =>
        obtain ⟨set, hset, hmem⟩ := exists_mem_of_fits hopening List.mem_cons_self
        refine ⟨set, hset, c, hmem, ?_⟩
        obtain ⟨first, part, rfl⟩ := List.exists_cons_of_ne_nil hne
        rw [(List.cons.inj heq).2]
        simp
  · exact absurd (hbegin.subset (hbegins hne heq)) (hlf hclear.solid)

/-- Above lines without quotes, a reference ends within its own lines. -/
theorem Form.Refers.exists_rest_of_above (hclear : form.IsClear) {above below : List Char}
    (hrefers : form.Refers before rest name taken)
    (hbelow : ∀ set ∈ form.opening, ∀ c ∈ set, c ∉ below)
    (htext : front ++ (taken ++ rest) = above ++ '\n' :: below)
    (hfront : front.length < above.length) :
    ∃ rest', front ++ (taken ++ rest') = above ∧ rest = rest' ++ '\n' :: below := by
  rw [← List.append_assoc] at htext
  rcases List.append_eq_append_iff.mp htext with ⟨rest', rfl, hrest⟩ | ⟨beyond, htaken, hbeyond⟩
  · exact ⟨rest', (List.append_assoc _ _ _).symm, hrest⟩
  · cases beyond with
    | nil =>
      rw [List.append_nil] at htaken
      exact ⟨[], by simpa using htaken, hbeyond.symm⟩
    | cons c beyond =>
      obtain ⟨rfl, hbelow'⟩ := List.cons.inj hbeyond
      obtain ⟨inside, rfl⟩ := List.prefix_of_prefix_length_le (htaken ▸ List.prefix_append front taken)
        (List.prefix_append above ('\n' :: beyond)) hfront.le
      rw [List.append_assoc] at htaken
      rw [List.append_cancel_left htaken] at hrefers
      obtain ⟨set, hset, c, hc, hmem⟩ := hrefers.exists_opening hclear
      refine absurd ?_ (hbelow set hset c hc)
      rw [hbelow']
      exact List.mem_append_left _ hmem

end Refers

section KeyLines

variable {keys : List String} {lines : List (List Char)}

def AreKeyLines (keys : List String) (lines : List (List Char)) : Prop :=
  ∀ line ∈ lines, line = [] ∨ ∃ key ∈ keys, line = key.toList ++ ['=']

theorem AreKeyLines.of_cons {line : List Char} (hlines : AreKeyLines keys (line :: lines)) :
    AreKeyLines keys lines :=
  fun other hother => hlines other (List.mem_cons_of_mem line hother)

theorem AreKeyLines.mem_endEach (hkeys : ∀ key ∈ keys, IsVariableName key.toList)
    (hlines : AreKeyLines keys lines) {c : Char} (hc : c ∈ endEach '\n' lines) :
    isNameChar c = true ∨ c = '=' ∨ c = '\n' := by
  obtain ⟨line, hline, hc⟩ := List.mem_flatMap.mp hc
  rcases List.mem_append.mp hc with hc | hc
  · rcases hlines line hline with rfl | ⟨key, hkey, rfl⟩
    · simp at hc
    · rcases List.mem_append.mp hc with hc | hc
      · exact .inl ((hkeys key hkey).isNameChar c hc)
      · exact .inr (.inl (List.mem_singleton.mp hc))
  · exact .inr (.inr (List.mem_singleton.mp hc))

theorem isNameChar_first_of_name (hname : IsVariableName name) {c : Char} {tail : List Char}
    (heq : name ++ rest = c :: tail) : isNameChar c = true := by
  obtain ⟨first, others, rfl⟩ := List.exists_cons_of_ne_nil hname.ne_nil
  rw [← (List.cons.inj heq).1]
  exact hname.isNameChar first List.mem_cons_self

/-- A whole word that begins in the line of a key is the key. -/
theorem eq_of_word_in_keyLine {key inside below : List Char} (hkey : IsVariableName key)
    (hname : IsVariableName name) (hline : key ++ ['='] = front ++ inside)
    (hinside : name ++ rest = inside ++ '\n' :: below)
    (hbefore : (lastOr before front).any isWord = false) (hafter : rest.head?.any isWord = false) :
    key = name := by
  rcases List.append_eq_append_iff.mp hline with ⟨begun, rfl, hequals⟩ | ⟨part, hpart, rfl⟩
  · -- Behind the key no name begins.
    cases begun with
    | nil =>
      rw [List.nil_append] at hequals
      rw [← hequals] at hinside
      exact absurd (isNameChar_first_of_name hname hinside) (by decide)
    | cons c begun =>
      obtain ⟨-, hnil⟩ := List.cons.inj hequals
      obtain ⟨-, rfl⟩ := List.append_eq_nil_iff.mp hnil.symm
      exact absurd (isNameChar_first_of_name hname hinside) (by decide)
  · have hnil : front = [] := by
      by_contra hne
      obtain ⟨shorter, c, rfl⟩ := List.eq_nil_or_concat front |>.resolve_left hne
      have hc : isWord c = true := isWord_of_isNameChar (hkey.isNameChar c (by rw [hpart]; simp))
      simp [lastOr, hc] at hbefore
    subst hnil
    rw [List.nil_append] at hpart
    rw [← hpart, List.append_assoc] at hinside
    have hequals : ('=' :: '\n' :: below).head?.any isNameChar = false := by
      change isNameChar '=' = false
      decide
    exact (append_inj_of_forall hkey.isNameChar hname.isNameChar hequals
      (any_isNameChar_eq_false hafter) hinside.symm).1

/-- The whole words of such lines are the keys. -/
theorem exists_key_of_word (hkeys : ∀ key ∈ keys, IsVariableName key.toList)
    (hlines : AreKeyLines keys lines) (hname : IsVariableName name)
    (htext : front ++ (name ++ rest) = endEach '\n' lines)
    (hbefore : (lastOr before front).any isWord = false) (hafter : rest.head?.any isWord = false) :
    ∃ key ∈ keys, key.toList = name := by
  induction lines generalizing before front with
  | nil =>
    obtain ⟨-, hnil⟩ := List.append_eq_nil_iff.mp htext
    exact absurd (List.append_eq_nil_iff.mp hnil).1 hname.ne_nil
  | cons line lines ih =>
    rw [endEach_cons] at htext
    rcases List.append_eq_append_iff.mp htext with ⟨inside, hline, hinside⟩ | ⟨skipped, rfl, hskipped⟩
    · rcases hlines line List.mem_cons_self with rfl | ⟨key, hkey, rfl⟩
      · obtain ⟨rfl, rfl⟩ := List.append_eq_nil_iff.mp hline.symm
        exact absurd (isNameChar_first_of_name hname hinside) (by decide)
      · exact ⟨key, hkey,
          eq_of_word_in_keyLine (hkeys key hkey) hname hline hinside hbefore hafter⟩
    · cases skipped with
      | nil => exact absurd (isNameChar_first_of_name hname hskipped.symm) (by decide)
      | cons c skipped =>
        obtain ⟨rfl, hbelow⟩ := List.cons.inj hskipped
        rw [lastOr_append, lastOr_cons] at hbefore
        exact ih hlines.of_cons hbelow.symm hbefore

theorem Form.Refers.exists_key (hclear : form.IsClear) (hkeys : ∀ key ∈ keys, IsVariableName key.toList)
    (hlines : AreKeyLines keys lines) (htext : front ++ (taken ++ rest) = endEach '\n' lines)
    (hrefers : form.Refers (lastOr before front) rest name taken) :
    ∃ key ∈ keys, key.toList = name := by
  have hmarker : form.marker = [] := by
    by_contra hne
    obtain ⟨c, hc, hchar⟩ := hclear.marked hne
    have hmem : c ∈ endEach '\n' lines := by
      rw [← htext]
      exact List.mem_append_right _ (List.mem_append_left _ (hrefers.marker_begins.subset hc))
    rcases hlines.mem_endEach hkeys hmem with hname | rfl | rfl
    · simp [hname] at hchar
    · exact hclear.unassigned.1 hc
    · exact lf_not_mem_of_not_blank hclear.solid hc
  obtain ⟨rfl, hbefore, hafter⟩ := hrefers.of_marker_nil hclear hmarker
  exact exists_key_of_word hkeys hlines hrefers.isVariableName htext hbefore hafter

end KeyLines

section Searches

variable {rule : Rule} {text text' above tail : List Char} {keys : List String}
  {lines : List (List Char)} {key : String}

theorem mem_candidates_iff :
    key ∈ candidates text ↔ (∃ rule ∈ rules, key ∈ rule.extract text) ∧ isCandidate key = true := by
  rw [candidates, Sorted.mem_ofList, List.mem_filter, List.mem_flatMap]

theorem mem_extract_of_sameLines (hrule : rule ∈ rules) (hsame : SameLines text text')
    (hkey : key ∈ rule.extract text) : key ∈ rule.extract text' := by
  obtain ⟨form, hclear, hform⟩ := exists_form_of_mem_rules hrule
  rw [mem_extract_iff hform hclear] at hkey ⊢
  obtain ⟨front, taken, rest, rfl, hrefers⟩ := hkey
  obtain ⟨front', back', rfl, hfront, hback⟩ := hsame.exists_append
  obtain ⟨taken', rest', rfl, htaken, hrest⟩ := hback.exists_append
  refine ⟨front', taken', rest', rfl, ?_⟩
  rw [hfront.getLast?_eq]
  exact hrefers.of_sameLines hclear htaken hrest

theorem mem_extract_of_sameLines_right (hrule : rule ∈ rules) (hsame : SameLines text text')
    (hkey : key ∈ rule.extract text') : key ∈ rule.extract text := by
  obtain ⟨form, hclear, hform⟩ := exists_form_of_mem_rules hrule
  rw [mem_extract_iff hform hclear] at hkey ⊢
  obtain ⟨front', taken', rest', rfl, hrefers⟩ := hkey
  have hbegin : (taken' ++ rest').head? ≠ some '\n' := by
    obtain ⟨c, taken', rfl⟩ := List.exists_cons_of_ne_nil (hrefers.ne_nil hclear)
    intro hhead
    obtain rfl := Option.some.inj hhead
    exact absurd (hrefers.isBlank_head hclear) (by decide)
  obtain ⟨front, back, rfl, hfront, hback⟩ := hsame.exists_append_right fun _ => hbegin
  obtain ⟨taken, rest, rfl, htaken, hrest⟩ := hback.exists_append_right
    fun hlast => absurd hlast (hrefers.getLast?_ne_cr hclear)
  refine ⟨front, taken, rest, rfl, ?_⟩
  rw [← hfront.getLast?_eq]
  exact hrefers.of_sameLines_right hclear htaken hrest

theorem candidates_of_sameLines (hsame : SameLines text text') (hkey : key ∈ candidates text) :
    key ∈ candidates text' := by
  rw [mem_candidates_iff] at hkey ⊢
  obtain ⟨⟨rule, hrule, hkey⟩, hkept⟩ := hkey
  exact ⟨⟨rule, hrule, mem_extract_of_sameLines hrule hsame hkey⟩, hkept⟩

variable (hkeys : ∀ key ∈ keys, IsVariableName key.toList) (hlines : AreKeyLines keys lines)

include hkeys hlines

/-- Lines with keys refer to nothing else. -/
theorem mem_of_mem_candidates_keyLines (hkey : key ∈ candidates (endEach '\n' lines)) :
    key ∈ keys := by
  obtain ⟨⟨rule, hrule, hkey⟩, -⟩ := mem_candidates_iff.mp hkey
  obtain ⟨form, hclear, hform⟩ := exists_form_of_mem_rules hrule
  obtain ⟨front, taken, rest, htext, hrefers⟩ := (mem_extract_iff hform hclear).mp hkey
  have hlast : lastOr none front = front.getLast? := by simp [lastOr]
  rw [← hlast] at hrefers
  obtain ⟨found, hfound, hsame⟩ := hrefers.exists_key hclear hkeys hlines htext
  rwa [← String.toList_injective hsame]

/-- Below a text, lines with keys add references to the keys, and no others. -/
theorem mem_candidates_of_keyLines_below (htail : tail.head?.any isWord = false)
    (hkey : key ∈ candidates (above ++ '\n' :: endEach '\n' lines)) :
    key ∈ candidates (above ++ tail) ∨ key ∈ keys := by
  obtain ⟨⟨rule, hrule, hkey⟩, hkept⟩ := mem_candidates_iff.mp hkey
  obtain ⟨form, hclear, hform⟩ := exists_form_of_mem_rules hrule
  obtain ⟨front, taken, rest, htext, hrefers⟩ := (mem_extract_iff hform hclear).mp hkey
  by_cases hfront : front.length < above.length
  · have hbelow : ∀ set ∈ form.opening, ∀ c ∈ set, c ∉ endEach '\n' lines := by
      intro set hset c hc hmem
      have haround := hclear.around set (List.mem_append_left _ hset) c hc
      rcases hlines.mem_endEach hkeys hmem with hname | rfl | rfl
      · simp [hname] at haround
      · exact hclear.unassigned.2 set (List.mem_append_left _ hset) hc
      · exact absurd haround.2.1 (by decide)
    obtain ⟨rest', rfl, rfl⟩ := hrefers.exists_rest_of_above hclear hbelow htext hfront
    refine .inl (mem_candidates_iff.mpr ⟨⟨rule, hrule, ?_⟩, hkept⟩)
    refine (mem_extract_iff hform hclear).mpr ⟨front, taken, rest' ++ tail, by simp, ?_⟩
    apply hrefers.change_rest
    cases rest' with
    | nil => exact .inr htail
    | cons => exact .inl rfl
  · obtain ⟨skipped, rfl⟩ := List.prefix_of_prefix_length_le (htext ▸ List.prefix_append above _)
      (List.prefix_append front (taken ++ rest)) (Nat.le_of_not_lt hfront)
    rw [List.append_assoc] at htext
    have hbelow := List.append_cancel_left htext
    cases skipped with
    | nil =>
      -- At the line feed itself no reference begins.
      rw [List.nil_append] at hbelow
      obtain ⟨c, others, rfl⟩ := List.exists_cons_of_ne_nil (hrefers.ne_nil hclear)
      have hc := hrefers.isBlank_head hclear
      rw [(List.cons.inj hbelow).1] at hc
      exact absurd hc (by decide)
    | cons c skipped =>
      obtain ⟨rfl, hafter⟩ := List.cons.inj hbelow
      have hlast : lastOr (some '\n') skipped = (above ++ '\n' :: skipped).getLast? := by
        simp [lastOr, List.getLast?_append, List.getLast?_cons]
      rw [← hlast] at hrefers
      obtain ⟨found, hfound, hsame⟩ := hrefers.exists_key hclear hkeys hlines hafter
      exact .inr (String.toList_injective hsame ▸ hfound)

end Searches

end EnvFill.Name
