import EnvFill.Proofs.References

/-!
# What the rules capture

Each rule captures the references of one form. A search with it therefore captures the names that
are referred to in this form at some place of the text, and no others.
-/

namespace EnvFill.Name

open Regex Text

variable {rule : Rule} {form : Form} {before : Option Char} {text taken rest name : List Char}

structure Rule.HasForm (rule : Rule) (form : Form) : Prop where
  refers : ∀ before text found, rule.regex.matchAt? before text = some found →
    ∃ taken name, text = taken ++ found.rest ∧ found.size = taken.length ∧
      found.last = lastOr before taken ∧ found.captured.map Capture.toList = some name ∧
        form.Refers before found.rest name taken
  takes : ∀ before taken rest name, form.Refers before rest name taken →
    Takes rule.regex before taken rest (some name)

theorem Rule.hasForm_of_takes_iff
    (htakes : ∀ before taken rest captured, Takes rule.regex before taken rest captured ↔
      ∃ name, captured = some name ∧ form.Refers before rest name taken) : rule.HasForm form where
  refers before text found hfound := by
    obtain ⟨taken, htext, hsize, hlast, hfound⟩ := exists_takes_of_matchAt? hfound
    obtain ⟨name, hname, hrefers⟩ := (htakes _ _ _ _).mp hfound
    exact ⟨taken, name, htext, hsize, hlast, hname, hrefers⟩
  takes before taken rest name hrefers := (htakes _ _ _ _).mpr ⟨name, rfl, hrefers⟩

theorem takes_shape_iff {captured : Option (List Char)} :
    Takes shape before taken rest captured ↔ IsVariableName taken ∧ captured = none := by
  simp only [shape, takes_seq_iff, takes_one_iff, takes_oneOrMore_iff]
  constructor
  · rintro ⟨_, others, _, _, rfl, ⟨first, hfirst, rfl, rfl⟩, ⟨hne, hothers, rfl⟩, rfl⟩
    exact ⟨⟨first, others, rfl, hfirst, hne, hothers⟩, rfl⟩
  · rintro ⟨⟨first, others, rfl, hfirst, hne, hothers⟩, rfl⟩
    exact ⟨[first], others, none, none, rfl, ⟨first, hfirst, rfl, rfl⟩, ⟨hne, hothers, rfl⟩, rfl⟩

theorem isGreedy_shape : IsGreedy isNameChar shape :=
  (isSingle_one _).seq_isGreedy ((isSingle_one _).seq_isGreedy (isGreedy_many _))

/-! ### The form of each rule -/

theorem fits_nil_iff : Fits [] text ↔ text = [] := by
  simp [Fits]

theorem fits_cons_iff {set : List Char} {sets : List (List Char)} :
    Fits (set :: sets) text ↔ ∃ c others, c ∈ set ∧ Fits sets others ∧ text = c :: others := by
  simp [Fits, List.forall₂_cons_right_iff]

def quotes : List Char := ['\'', '"']

def memberForm (lead : String) : Form := ⟨lead.toList, false, [], [], [], false⟩

def bracketForm (lead : String) : Form :=
  ⟨lead.toList ++ ['['], false, [quotes], [], [quotes, [']']], false⟩

def callForm (lead : String) : Form := ⟨lead.toList ++ ['('], true, [quotes], [], [quotes], false⟩

def publicForm (lead : String) : Form := ⟨[], false, [], lead.toList, [], true⟩

def bracedForm : Form := ⟨['$', '\x7b'], false, [], [], [['\x7d']], false⟩

def dollarForm : Form := ⟨['$'], false, [], [], [], true⟩

theorem isNameChar_of_mem_quotes {c : Char} (hc : c ∈ quotes) : isNameChar c = false := by
  have hquote : c = '\'' ∨ c = '"' := by simpa [quotes] using hc
  rcases hquote with rfl | rfl
  · decide
  · decide

theorem takes_inOrder_char_iff {c : Char} {others : List Regex} {captured : Option (List Char)} :
    Takes (inOrder (.one (· == c) :: others)) before taken rest captured ↔
      ∃ back, taken = c :: back ∧ Takes (inOrder others) (some c) back rest captured := by
  simp [takes_inOrder_one_iff]

theorem takes_inOrder_anyQuote_iff {others : List Regex} {captured : Option (List Char)} :
    Takes (inOrder (Rule.anyQuote :: others)) before taken rest captured ↔
      ∃ c back, c ∈ quotes ∧ taken = c :: back ∧
        Takes (inOrder others) (some c) back rest captured := by
  simp [Rule.anyQuote, takes_inOrder_one_iff, quotes]

theorem takes_inOrder_wordEdge_iff {others : List Regex} {captured : Option (List Char)} :
    Takes (inOrder (.wordEdge :: others)) before taken rest captured ↔
      before.any isWord ≠ (taken ++ rest).head?.any isWord ∧
        Takes (inOrder others) before taken rest captured := by
  simp [wordEdge, takes_inOrder_place_iff]

theorem Rule.hasForm_member (ecosystem lead : String) :
    (Rule.member ecosystem lead).HasForm (memberForm lead) where
  refers before text found hfound := by
    have hgreedy : IsGreedy isNameChar (Rule.member ecosystem lead).regex :=
      (isSingle_literal lead).seq_isGreedy isGreedy_shape.group
    have hend := hgreedy before text found hfound
    obtain ⟨taken, htext, hsize, hlast, htakes⟩ := exists_takes_of_matchAt? hfound
    simp only [Rule.member, takes_inOrder_literal_iff, takes_inOrder_group_iff, takes_shape_iff,
      takes_inOrder_nil_iff] at htakes
    obtain ⟨_, rfl, name, _, _, ⟨_, hname, -⟩, rfl, ⟨rfl, rfl⟩, hcaptured⟩ := htakes
    refine ⟨_, name, htext, hsize, hlast, hcaptured, ?_⟩
    exact .mk [] [] [] (by simp) (fun _ => rfl) .nil hname
      List.nil_prefix (List.length_pos_iff.mpr hname.ne_nil) .nil hend (by simp [memberForm])
  takes before taken rest name hrefers := by
    obtain ⟨gap, opening, closing, -, hspaced, hopening, hname, -, -, hclosing, -, -⟩ := hrefers
    obtain rfl := hspaced rfl
    obtain rfl := fits_nil_iff.mp hopening
    obtain rfl := fits_nil_iff.mp hclosing
    simp only [Rule.member, takes_inOrder_literal_iff, takes_inOrder_group_iff, takes_shape_iff,
      takes_inOrder_nil_iff]
    exact ⟨_, rfl, name, [], none, ⟨none, hname, rfl⟩, rfl, ⟨rfl, rfl⟩, rfl⟩

theorem Rule.hasForm_bracket (ecosystem lead : String) :
    (Rule.bracket ecosystem lead).HasForm (bracketForm lead) := by
  apply Rule.hasForm_of_takes_iff
  intro before taken rest captured
  simp only [Rule.bracket, takes_inOrder_literal_iff, takes_inOrder_char_iff,
    takes_inOrder_anyQuote_iff, takes_inOrder_group_iff, takes_shape_iff, takes_inOrder_nil_iff]
  constructor
  · rintro ⟨_, rfl, _, rfl, first, _, hfirst, rfl, name, _, _, ⟨_, hname, -⟩, rfl, ⟨last, _, hlast,
      rfl, _, rfl, rfl, rfl⟩, rfl⟩
    refine ⟨name, rfl, ?_⟩
    have hrefers : (bracketForm lead).Refers before rest name _ :=
      .mk [] [first] [last, ']'] (by simp) (fun _ => rfl)
        (.cons hfirst .nil) hname List.nil_prefix (List.length_pos_iff.mpr hname.ne_nil)
        (.cons hlast (.cons (List.mem_singleton_self _) .nil))
        (by simpa using isNameChar_of_mem_quotes hlast) (by simp [bracketForm])
    simpa [bracketForm] using hrefers
  · rintro ⟨name, rfl, ⟨gap, opening, closing, -, hspaced, hopening, hname, -, -, hclosing, -, -⟩⟩
    obtain rfl := hspaced rfl
    obtain ⟨first, _, hfirst, hnil, rfl⟩ := fits_cons_iff.mp hopening
    obtain rfl := fits_nil_iff.mp hnil
    obtain ⟨last, _, hlast, hbracket, rfl⟩ := fits_cons_iff.mp hclosing
    obtain ⟨_, _, hmem, hnil, rfl⟩ := fits_cons_iff.mp hbracket
    obtain rfl := List.mem_singleton.mp hmem
    obtain rfl := fits_nil_iff.mp hnil
    refine ⟨'[' :: first :: (name ++ [last, ']']), by simp [bracketForm], _, rfl, first, _, hfirst,
      rfl, name, _, none, ⟨none, hname, rfl⟩, rfl, ?_, rfl⟩
    exact ⟨last, _, hlast, rfl, [], rfl, rfl, rfl⟩

theorem Rule.hasForm_call (ecosystem lead : String) :
    (Rule.call ecosystem lead).HasForm (callForm lead) := by
  apply Rule.hasForm_of_takes_iff
  intro before taken rest captured
  simp only [Rule.call, takes_inOrder_literal_iff, takes_inOrder_char_iff, takes_inOrder_many_iff,
    takes_inOrder_anyQuote_iff, takes_inOrder_group_iff, takes_shape_iff, takes_inOrder_nil_iff]
  constructor
  · rintro ⟨_, rfl, _, rfl, gap, _, hgap, rfl, first, _, hfirst, rfl, name, _, _, ⟨_, hname, -⟩, rfl,
      ⟨last, _, hlast, rfl, rfl, rfl⟩, rfl⟩
    refine ⟨name, rfl, ?_⟩
    have hrefers : (callForm lead).Refers before rest name _ :=
      .mk gap [first] [last] (List.all_eq_true.mp hgap) (by simp [callForm])
        (.cons hfirst .nil) hname List.nil_prefix (List.length_pos_iff.mpr hname.ne_nil)
        (.cons hlast .nil) (by simpa using isNameChar_of_mem_quotes hlast) (by simp [callForm])
    simpa [callForm] using hrefers
  · rintro ⟨name, rfl, ⟨gap, opening, closing, hgap, -, hopening, hname, -, -, hclosing, -, -⟩⟩
    obtain ⟨first, _, hfirst, hnil, rfl⟩ := fits_cons_iff.mp hopening
    obtain rfl := fits_nil_iff.mp hnil
    obtain ⟨last, _, hlast, hnil, rfl⟩ := fits_cons_iff.mp hclosing
    obtain rfl := fits_nil_iff.mp hnil
    refine ⟨'(' :: (gap ++ first :: (name ++ [last])), by simp [callForm], _, rfl, gap, _,
      List.all_eq_true.mpr hgap, rfl, first, _, hfirst, rfl, name, _, none, ⟨none, hname, rfl⟩, rfl, ?_,
      rfl⟩
    exact ⟨last, _, hlast, rfl, rfl, rfl⟩

theorem Rule.hasForm_braced (ecosystem : String) : (Rule.braced ecosystem).HasForm bracedForm := by
  apply Rule.hasForm_of_takes_iff
  intro before taken rest captured
  simp only [Rule.braced, takes_inOrder_literal_iff, takes_inOrder_group_iff, takes_shape_iff,
    takes_inOrder_nil_iff]
  constructor
  · rintro ⟨_, rfl, name, _, _, ⟨_, hname, -⟩, rfl, ⟨_, rfl, rfl, rfl⟩, rfl⟩
    refine ⟨name, rfl, ?_⟩
    exact .mk [] [] ['\x7d'] (by simp) (fun _ => rfl) .nil hname
      List.nil_prefix (List.length_pos_iff.mpr hname.ne_nil)
      (.cons (List.mem_singleton_self _) .nil) (by simp [isNameChar, isCapital])
      (by simp [bracedForm])
  · rintro ⟨name, rfl, ⟨gap, opening, closing, -, hspaced, hopening, hname, -, -, hclosing, -, -⟩⟩
    obtain rfl := hspaced rfl
    obtain rfl := fits_nil_iff.mp hopening
    obtain ⟨_, _, hmem, hnil, rfl⟩ := fits_cons_iff.mp hclosing
    obtain rfl := List.mem_singleton.mp hmem
    obtain rfl := fits_nil_iff.mp hnil
    exact ⟨_, rfl, name, _, none, ⟨none, hname, rfl⟩, rfl, ⟨[], rfl, rfl, rfl⟩, rfl⟩

/-- Nothing of a word comes after a name that ends at the edge of one. -/
theorem any_isWord_eq_false_of_edge (hname : IsVariableName name)
    (hedge : (lastOr before name).any isWord ≠ rest.head?.any isWord) :
    rest.head?.any isWord = false := by
  obtain ⟨front, c, rfl⟩ := List.eq_nil_or_concat name |>.resolve_left hname.ne_nil
  have hc : isWord c = true := isWord_of_isNameChar (hname.isNameChar c (by simp))
  simpa [lastOr, hc] using hedge.symm

theorem any_isNameChar_eq_false (hword : rest.head?.any isWord = false) :
    rest.head?.any isNameChar = false := by
  cases hhead : rest.head? with
  | none => rfl
  | some c =>
    rw [hhead, Option.any_some] at hword
    rw [Option.any_some]
    by_contra hchar
    rw [Bool.not_eq_false] at hchar
    simp [isWord_of_isNameChar hchar] at hword

theorem Rule.hasForm_dollar (ecosystem : String) : (Rule.dollar ecosystem).HasForm dollarForm := by
  apply Rule.hasForm_of_takes_iff
  intro before taken rest captured
  simp only [Rule.dollar, takes_inOrder_char_iff, takes_inOrder_group_iff, takes_shape_iff,
    takes_inOrder_wordEdge_iff, takes_inOrder_nil_iff]
  constructor
  · rintro ⟨_, rfl, name, _, _, ⟨_, hname, -⟩, rfl, ⟨hedge, rfl, rfl⟩, rfl⟩
    have hword := any_isWord_eq_false_of_edge hname hedge
    have hdollar : isWord '$' = false := by decide +kernel
    refine ⟨name, rfl, ?_⟩
    exact .mk [] [] [] (by simp) (fun _ => rfl) .nil hname
      List.nil_prefix (List.length_pos_iff.mpr hname.ne_nil) .nil
      (any_isNameChar_eq_false hword) fun _ => ⟨by simp [dollarForm, hdollar], hword⟩
  · rintro ⟨name, rfl, ⟨gap, opening, closing, -, hspaced, hopening, hname, -, -, hclosing, -, hwhole⟩⟩
    obtain rfl := hspaced rfl
    obtain rfl := fits_nil_iff.mp hopening
    obtain rfl := fits_nil_iff.mp hclosing
    refine ⟨_, rfl, name, _, none, ⟨none, hname, rfl⟩, rfl, ⟨?_, rfl, rfl⟩, rfl⟩
    rw [(hwhole rfl).2]
    obtain ⟨front, c, rfl⟩ := List.eq_nil_or_concat name |>.resolve_left hname.ne_nil
    have hc : isWord c = true := isWord_of_isNameChar (hname.isNameChar c (by simp))
    simp [lastOr, hc]

theorem takes_publicBody_iff {lead : String} {captured : Option (List Char)} :
    Takes (inOrder [literal lead, oneOrMore isNameChar]) before taken rest captured ↔
      (∃ others, taken = lead.toList ++ others ∧ others ≠ [] ∧ others.all isNameChar = true) ∧
        captured = none := by
  rw [takes_inOrder_literal_iff]
  simp only [inOrder, takes_oneOrMore_iff]
  constructor
  · rintro ⟨others, rfl, hne, hothers, rfl⟩
    exact ⟨⟨others, rfl, hne, hothers⟩, rfl⟩
  · rintro ⟨⟨others, rfl, hne, hothers⟩, rfl⟩
    exact ⟨others, rfl, hne, hothers, rfl⟩

theorem Rule.hasForm_publicStart (ecosystem lead : String) (hlead : IsVariableName lead.toList) :
    (Rule.publicStart ecosystem lead).HasForm (publicForm lead) := by
  apply Rule.hasForm_of_takes_iff
  intro before taken rest captured
  obtain ⟨first, start, hstart, hfirst, -, hchars⟩ := hlead
  simp only [Rule.publicStart, takes_inOrder_wordEdge_iff, takes_inOrder_group_iff, takes_publicBody_iff,
    takes_inOrder_nil_iff]
  constructor
  · rintro ⟨hbefore, name, _, _, ⟨_, ⟨others, rfl, hne, hothers⟩, -⟩, rfl, ⟨hedge, rfl, rfl⟩, rfl⟩
    have hname : IsVariableName (lead.toList ++ others) :=
      ⟨first, start ++ others, by simp [hstart], hfirst, by simp [hne], by simp [hchars, hothers]⟩
    have hword := any_isWord_eq_false_of_edge hname hedge
    have hfirstWord : isWord first = true := isWord_of_isNameChar (isNameChar_of_isCapital hfirst)
    refine ⟨lead.toList ++ others, rfl, ?_⟩
    refine .mk [] [] [] (by simp) (fun _ => rfl) .nil hname
      (List.prefix_append _ _) ?_ .nil (any_isNameChar_eq_false hword)
      fun _ => ⟨?_, hword⟩
    · have := List.length_pos_iff.mpr hne
      simpa [publicForm] using this
    · simpa [publicForm, hstart, hfirstWord] using hbefore
  · rintro ⟨name, rfl, ⟨gap, opening, closing, -, hspaced, hopening, hname, hbegins, hlonger, hclosing, -,
      hwhole⟩⟩
    obtain rfl := hspaced rfl
    obtain rfl := fits_nil_iff.mp hopening
    obtain rfl := fits_nil_iff.mp hclosing
    obtain ⟨hbefore, hafter⟩ := hwhole rfl
    obtain ⟨others, rfl⟩ := hbegins
    have hne : others ≠ [] := by
      rintro rfl
      simp at hlonger
    have hothers : others.all isNameChar = true :=
      List.all_eq_true.mpr fun c hc => hname.isNameChar c (List.mem_append_right _ hc)
    have hfirstWord : isWord first = true := isWord_of_isNameChar (isNameChar_of_isCapital hfirst)
    refine ⟨?_, lead.toList ++ others, [], none, ⟨none, ⟨others, rfl, hne, hothers⟩, rfl⟩, ?_,
      ⟨?_, rfl, rfl⟩, rfl⟩
    · simpa [publicForm, hstart, hfirstWord] using hbefore
    · simp [publicForm]
    · obtain ⟨front, c, rfl⟩ := List.eq_nil_or_concat others |>.resolve_left hne
      have hc : isWord c = true := isWord_of_isNameChar (hname.isNameChar c (by simp))
      simp only [List.nil_append] at hafter ⊢
      rw [hafter]
      simp [lastOr, hc]

instance : DecidablePred Form.IsClear := fun form =>
  decidable_of_iff
    ((form.opening ++ form.closing).all (fun set => set.all fun c =>
        !form.marker.contains c && !isBlank c && !isNameChar c && c != '=') = true ∧
      form.marker.all (fun c => !isBlank c && c != '=') = true ∧
      (∀ size < form.marker.length, 0 < size → ¬form.marker.drop size <+: form.marker) ∧
      (form.marker ≠ [] → form.marker.any (!isNameChar ·) = true) ∧
      (form.marker.head?.any isNameChar = true → form.closing ≠ []) ∧
      (form.marker = [] →
        form.isWhole = true ∧ form.isSpaced = false ∧ form.opening = [] ∧ form.closing = []) ∧
      (form.isSpaced = true → form.opening ≠ [])) <| by
    simp only [List.all_eq_true, Bool.and_eq_true, Bool.not_eq_true', List.any_eq_true,
      List.contains_eq_mem, decide_eq_false_iff_not, bne_iff_ne]
    constructor
    · rintro ⟨haround, hsolid, hborderless, hmarked, hended, hunmarked, hspaced⟩
      refine ⟨fun set hset c hc => ?_, fun c hc => (hsolid c hc).1, hborderless, hmarked, ?_, hunmarked,
        hspaced, fun hmem => (hsolid _ hmem).2 rfl, fun set hset hmem => (haround set hset _ hmem).2 rfl⟩
      · obtain ⟨⟨⟨hmarker, hblank⟩, hchar⟩, -⟩ := haround set hset c hc
        exact ⟨hmarker, hblank, hchar⟩
      · intro c hc hchar
        exact hended (by rw [Option.mem_def.mp hc]; exact hchar)
    · intro hclear
      refine ⟨fun set hset c hc => ?_, fun c hc => ⟨hclear.solid c hc, ?_⟩, hclear.borderless,
        hclear.marked, ?_, hclear.unmarked, hclear.spaced⟩
      · obtain ⟨hmarker, hblank, hchar⟩ := hclear.around set hset c hc
        exact ⟨⟨⟨hmarker, hblank⟩, hchar⟩, fun heq => hclear.unassigned.2 set hset (heq ▸ hc)⟩
      · exact fun heq => hclear.unassigned.1 (heq ▸ hc)
      · intro hany
        cases hhead : form.marker.head? with
        | none => simp [hhead] at hany
        | some c =>
          rw [hhead, Option.any_some] at hany
          exact hclear.ended c hhead hany

/-! ### The kinds of rules -/

def memberLeads : List String := ["process.env.", "import.meta.env."]

def bracketLeads : List String := ["process.env", "os.environ", "ENV"]

def callLeads : List String :=
  ["os.environ.get", "os.getenv", "ENV.fetch", "env", "System.getenv", "os.Getenv", "std::env::var"]

def publicLeads : List String := ["NEXT_PUBLIC_", "REACT_APP_", "VITE_", "NUXT_", "EXPO_PUBLIC_"]

/-- The kinds of rules, each with what it looks for. -/
inductive Rule.IsListed : Rule → Prop where
  | member (ecosystem : String) {lead : String} (hlead : lead ∈ memberLeads) :
      IsListed (.member ecosystem lead)
  | bracket (ecosystem : String) {lead : String} (hlead : lead ∈ bracketLeads) :
      IsListed (.bracket ecosystem lead)
  | call (ecosystem : String) {lead : String} (hlead : lead ∈ callLeads) :
      IsListed (.call ecosystem lead)
  | publicStart (ecosystem : String) {lead : String} (hlead : lead ∈ publicLeads) :
      IsListed (.publicStart ecosystem lead)
  | braced (ecosystem : String) : IsListed (.braced ecosystem)
  | dollar (ecosystem : String) : IsListed (.dollar ecosystem)

theorem isListed_of_mem_rules (hrule : rule ∈ rules) : rule.IsListed := by
  simp only [rules, List.mem_cons, List.not_mem_nil, or_false] at hrule
  rcases hrule with rfl | rfl | rfl | rfl | rfl | rfl | rfl | rfl | rfl | rfl | rfl | rfl | rfl |
    rfl | rfl | rfl | rfl | rfl | rfl
  · exact .member "node" (by decide)
  · exact .bracket "node" (by decide)
  · exact .member "vite" (by decide)
  · exact .publicStart "next" (by decide)
  · exact .publicStart "react" (by decide)
  · exact .publicStart "vite" (by decide)
  · exact .publicStart "nuxt" (by decide)
  · exact .publicStart "expo" (by decide)
  · exact .call "python" (by decide)
  · exact .bracket "python" (by decide)
  · exact .call "python" (by decide)
  · exact .bracket "ruby" (by decide)
  · exact .call "ruby" (by decide)
  · exact .call "php" (by decide)
  · exact .call "java" (by decide)
  · exact .call "go" (by decide)
  · exact .call "rust" (by decide)
  · exact .braced "compose"
  · exact .dollar "shell"

theorem isVariableName_of_mem_publicLeads :
    ∀ lead ∈ publicLeads, IsVariableName lead.toList := by
  simp [publicLeads, IsVariableName, isCapital, isNameChar]

theorem exists_form_of_mem_rules (hrule : rule ∈ rules) :
    ∃ form : Form, form.IsClear ∧ rule.HasForm form := by
  have hmember : ∀ lead ∈ memberLeads, (memberForm lead).IsClear := by decide
  have hbracket : ∀ lead ∈ bracketLeads, (bracketForm lead).IsClear := by decide
  have hcall : ∀ lead ∈ callLeads, (callForm lead).IsClear := by decide
  have hpublic : ∀ lead ∈ publicLeads, (publicForm lead).IsClear := by decide
  cases isListed_of_mem_rules hrule with
  | member ecosystem hlead => exact ⟨_, hmember _ hlead, Rule.hasForm_member ecosystem _⟩
  | bracket ecosystem hlead => exact ⟨_, hbracket _ hlead, Rule.hasForm_bracket ecosystem _⟩
  | call ecosystem hlead => exact ⟨_, hcall _ hlead, Rule.hasForm_call ecosystem _⟩
  | publicStart ecosystem hlead =>
    exact ⟨_, hpublic _ hlead,
      Rule.hasForm_publicStart ecosystem _ (isVariableName_of_mem_publicLeads _ hlead)⟩
  | braced ecosystem => exact ⟨_, by decide, Rule.hasForm_braced ecosystem⟩
  | dollar ecosystem => exact ⟨_, by decide, Rule.hasForm_dollar ecosystem⟩

/-! ### Searches -/

theorem Rule.HasForm.isApart (hform : rule.HasForm form) (hclear : form.IsClear) :
    IsApart rule.regex := by
  intro before front back found hfound hne hlength
  by_contra hmatch
  obtain ⟨inside, hinside⟩ := Option.ne_none_iff_exists'.mp hmatch
  obtain ⟨taken, name, htext, hsize, -, -, hrefers⟩ := hform.refers _ _ _ hfound
  obtain ⟨taken', name', htext', -, -, -, hrefers'⟩ := hform.refers _ _ _ hinside
  rw [hsize] at hlength
  obtain ⟨inner, rfl⟩ := List.prefix_of_prefix_length_le (htext ▸ List.prefix_append front back)
    (List.prefix_append taken found.rest) hlength.le
  have hinner : inner ≠ [] := by
    rintro rfl
    simp at hlength
  rw [List.append_assoc] at htext
  exact hrefers.not_inside hclear hne hinner hrefers'
    ((List.append_cancel_left htext).symm.trans htext')

/-- **What a search captures.** -/
theorem mem_extract_iff (hform : rule.HasForm form) (hclear : form.IsClear) {name : String} :
    name ∈ rule.extract text ↔
      ∃ front taken rest, front ++ (taken ++ rest) = text ∧
        form.Refers front.getLast? rest name.toList taken := by
  rw [Rule.extract, List.mem_filterMap]
  constructor
  · rintro ⟨found, hfound, hname⟩
    obtain ⟨front, back, rfl, hmatch⟩ := exists_matchAt?_of_mem_findAllFrom hfound
    obtain ⟨taken, captured, rfl, -, -, hcaptured, hrefers⟩ := hform.refers _ _ _ hmatch
    refine ⟨front, taken, found.rest, rfl, ?_⟩
    obtain ⟨capture, hcapture, rfl⟩ := Option.map_eq_some_iff.mp hcaptured
    rw [hcapture, Option.map_some, Option.some.injEq] at hname
    rw [← hname, String.toList_ofList]
    simpa [lastOr] using hrefers
  · rintro ⟨front, taken, rest, rfl, hrefers⟩
    have hlast : lastOr none front = front.getLast? := by simp [lastOr]
    rw [← hlast] at hrefers
    obtain ⟨found, hfound⟩ := exists_matchAt?_of_takes (hform.takes _ _ _ _ hrefers)
    obtain ⟨taken', captured, htext, -, -, hcaptured, hrefers'⟩ := hform.refers _ _ _ hfound
    refine ⟨found, (hform.isApart hclear).mem_findAllFrom rfl hfound, ?_⟩
    obtain ⟨capture, hcapture, rfl⟩ := Option.map_eq_some_iff.mp hcaptured
    rw [hcapture, Option.map_some, Option.some.injEq, ← hrefers.unique hclear hrefers' htext,
      String.ofList_toList]

end EnvFill.Name
