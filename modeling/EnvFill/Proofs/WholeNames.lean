import EnvFill.Proofs.CapturedNames

/-!
# What follows a captured name

A rule that asks for a quote, a brace or the edge of a word after the name captures whole words. A rule
for members asks for nothing there. It takes as many characters of a name as there are, and so it stops
before a small letter too, in the middle of a longer identifier.
-/

namespace EnvFill.Regex

open Text

variable {body : Regex} {back : List Regex} {before : Option Char} {text : List Char} {found : Match}

def Capture.after (capture : Capture) : List Char := capture.text.drop capture.size

theorem mem_run_inOrder_cons {first : Regex} (hfound : found ∈ (inOrder (first :: back)).run before text) :
    ∃ head ∈ first.run before text, ∃ tail ∈ (inOrder back).run head.last head.rest,
      found = head.append tail := by
  cases back with
  | nil =>
    refine ⟨found, hfound, ⟨0, found.last, found.rest, none⟩, List.mem_singleton_self _, ?_⟩
    rw [Match.append, Option.none_or, Nat.add_zero]
  | cons second back => exact mem_run_seq_iff.mp hfound

/-- Where only one of several expressions is a group, its piece comes after what those before it take
and is followed by what those after it take. -/
theorem exists_of_captured (front back : List Regex)
    (hback : ∀ before taken rest captured, Takes (inOrder back) before taken rest captured → captured = none)
    (hfound : found ∈ (inOrder (front ++ .group body :: back)).run before text) :
    ∃ lead name closing, text = lead ++ (name ++ (closing ++ found.rest)) ∧
      found.captured = some ⟨name ++ (closing ++ found.rest), name.length⟩ ∧
        (∃ captured, Takes (inOrder front) before lead (name ++ (closing ++ found.rest)) captured) ∧
          (∃ inner, Takes body (lastOr before lead) name (closing ++ found.rest) inner) ∧
            Takes (inOrder back) (lastOr (lastOr before lead) name) closing found.rest none := by
  induction front generalizing before text found with
  | nil =>
    obtain ⟨head, hhead, tail, htail, rfl⟩ := mem_run_inOrder_cons hfound
    obtain ⟨inner, hinner, rfl⟩ := mem_run_group_iff.mp hhead
    obtain ⟨name, rfl, hsize, hlast, hname⟩ := exists_takes_of_mem_run hinner
    obtain ⟨closing, hrest, -, -, hclosing⟩ := exists_takes_of_mem_run htail
    dsimp only at hrest hclosing
    have hnone : tail.captured = none := Option.map_eq_none_iff.mp (hback _ _ _ _ hclosing)
    rw [hnone, hlast] at hclosing
    rw [hrest] at hname
    refine ⟨[], name, closing, ?_, ?_, ⟨none, takes_inOrder_nil_iff.mpr ⟨rfl, rfl⟩⟩, ⟨_, hname⟩, hclosing⟩
    · rw [hrest]
      rfl
    · rw [Match.append, hnone, Option.none_or, hrest, hsize]
  | cons first front ih =>
    obtain ⟨head, hhead, tail, htail, rfl⟩ := mem_run_inOrder_cons hfound
    obtain ⟨taken, rfl, -, hlast, hfirst⟩ := exists_takes_of_mem_run hhead
    obtain ⟨lead, name, closing, hrest, hcaptured, ⟨captured, hfront⟩, hname, hclosing⟩ := ih htail
    rw [hlast] at hfront hname hclosing
    rw [hrest] at hfirst
    have hlead := takes_inOrder_cons_iff.mpr
      (takes_seq_iff.mpr ⟨taken, lead, _, captured, rfl, hfirst, hfront, rfl⟩)
    refine ⟨taken ++ lead, name, closing, ?_, ?_, ⟨_, hlead⟩, ?_, ?_⟩
    · rw [hrest, List.append_assoc]
      rfl
    · rw [Match.append, hcaptured, Option.some_or]
    · rwa [lastOr_append]
    · rwa [lastOr_append]

end EnvFill.Regex

namespace EnvFill.Name

open Regex Text

variable {rule : Rule} {text : List Char} {name : String} {after : List Char}

/-- A search with the rule captures the name where it is followed by `after`. -/
def Rule.CapturesBefore (rule : Rule) (text : List Char) (name : String) (after : List Char) : Prop :=
  ∃ found ∈ rule.regex.findAll text, ∃ capture ∈ found.captured,
    capture.toList = name.toList ∧ capture.after = after

def Rule.StopsBefore (rule : Rule) (p : Char → Bool) : Prop :=
  ∀ before text found, rule.regex.matchAt? before text = some found →
    ∀ capture ∈ found.captured, capture.after.head?.any p = false

theorem mem_extract_iff_capturesBefore :
    name ∈ rule.extract text ↔ ∃ after, rule.CapturesBefore text name after := by
  rw [Rule.extract, List.mem_filterMap]
  constructor
  · rintro ⟨found, hfound, hname⟩
    obtain ⟨capture, hcapture, rfl⟩ := Option.map_eq_some_iff.mp hname
    exact ⟨_, found, hfound, capture, hcapture, String.toList_ofList.symm, rfl⟩
  · rintro ⟨after, found, hfound, capture, hcapture, hname, -⟩
    refine ⟨found, hfound, Option.map_eq_some_iff.mpr ⟨capture, hcapture, ?_⟩⟩
    rw [hname, String.ofList_toList]

theorem Rule.StopsBefore.head?_any_eq_false {p : Char → Bool} (hstops : rule.StopsBefore p)
    (hcaptures : rule.CapturesBefore text name after) : after.head?.any p = false := by
  obtain ⟨found, hfound, capture, hcapture, -, rfl⟩ := hcaptures
  obtain ⟨front, back, -, hmatch⟩ := exists_matchAt?_of_mem_findAllFrom hfound
  exact hstops _ _ _ hmatch capture hcapture

theorem stopsBefore_of_closing {p : Char → Bool} {body : Regex} (front : List Regex) {back : List Regex}
    (hregex : rule.regex = inOrder (front ++ .group body :: back))
    (hback : ∀ before taken rest captured, Takes (inOrder back) before taken rest captured → captured = none)
    (hclosing : ∀ before name closing rest inner, Takes body before name (closing ++ rest) inner →
      Takes (inOrder back) (lastOr before name) closing rest none →
        (closing ++ rest).head?.any p = false) :
    rule.StopsBefore p := by
  intro before text found hfound capture hcapture
  rw [hregex] at hfound
  obtain ⟨lead, name, closing, -, hcaptured, -, ⟨inner, hname⟩, hend⟩ :=
    exists_of_captured front back hback (List.mem_of_head? hfound)
  obtain rfl := Option.some.inj (hcaptured.symm.trans hcapture)
  rw [Capture.after, List.drop_left]
  exact hclosing _ _ _ _ _ hname hend

theorem isWord_of_mem_quotes {c : Char} (hc : c ∈ quotes) : isWord c = false := by
  have hquote : c = '\'' ∨ c = '"' := by simpa [quotes] using hc
  rcases hquote with rfl | rfl
  · decide +kernel
  · decide +kernel

theorem stopsBefore_bracket (ecosystem lead : String) :
    (Rule.bracket ecosystem lead).StopsBefore isWord := by
  apply stopsBefore_of_closing [literal lead, .one (· == '['), Rule.anyQuote] rfl
  · simp [takes_inOrder_anyQuote_iff, takes_inOrder_char_iff, takes_inOrder_nil_iff]
  · intro before name closing rest inner _ hend
    obtain ⟨c, back, hc, rfl, -⟩ := takes_inOrder_anyQuote_iff.mp hend
    exact isWord_of_mem_quotes hc

theorem stopsBefore_call (ecosystem lead : String) :
    (Rule.call ecosystem lead).StopsBefore isWord := by
  apply stopsBefore_of_closing
    [literal lead, .one (· == '('), .many isBlank, Rule.anyQuote] rfl
  · simp [takes_inOrder_anyQuote_iff, takes_inOrder_nil_iff]
  · intro before name closing rest inner _ hend
    obtain ⟨c, back, hc, rfl, -⟩ := takes_inOrder_anyQuote_iff.mp hend
    exact isWord_of_mem_quotes hc

theorem stopsBefore_braced (ecosystem : String) : (Rule.braced ecosystem).StopsBefore isWord := by
  apply stopsBefore_of_closing [literal "$\x7b"] rfl
  · simp [takes_inOrder_literal_iff, takes_inOrder_nil_iff]
  · intro before name closing rest inner _ hend
    obtain ⟨back, rfl, -⟩ := takes_inOrder_literal_iff.mp hend
    have hbrace : isWord '\x7d' = false := by decide +kernel
    simpa using hbrace

theorem takes_wordEdge_captures_none {before : Option Char} {taken rest : List Char}
    {captured : Option (List Char)} (htakes : Takes (inOrder [.wordEdge]) before taken rest captured) :
    captured = none := by
  rw [takes_inOrder_wordEdge_iff, takes_inOrder_nil_iff] at htakes
  exact htakes.2.2

theorem stopsBefore_dollar (ecosystem : String) : (Rule.dollar ecosystem).StopsBefore isWord := by
  apply stopsBefore_of_closing [.one (· == '$')] rfl
  · exact fun before taken rest captured htakes => takes_wordEdge_captures_none htakes
  · intro before name closing rest inner hname hend
    exact any_isWord_eq_false_of_edge (takes_shape_iff.mp hname).1 (takes_inOrder_wordEdge_iff.mp hend).1

theorem stopsBefore_publicStart (ecosystem : String) {lead : String} (hlead : IsVariableName lead.toList) :
    (Rule.publicStart ecosystem lead).StopsBefore isWord := by
  apply stopsBefore_of_closing [.wordEdge] rfl
  · exact fun before taken rest captured htakes => takes_wordEdge_captures_none htakes
  · intro before name closing rest inner hname hend
    obtain ⟨⟨others, rfl, -, hothers⟩, -⟩ := takes_publicBody_iff.mp hname
    obtain ⟨first, start, hstart, hfirst, hne, hchars⟩ := hlead
    have hname : IsVariableName (lead.toList ++ others) :=
      ⟨first, start ++ others, by simp [hstart], hfirst, by simp [hne], by simp [hchars, hothers]⟩
    exact any_isWord_eq_false_of_edge hname (takes_inOrder_wordEdge_iff.mp hend).1

theorem stopsBefore_or_member (hrule : rule ∈ rules) :
    rule.convention ≠ .member ∧ rule.StopsBefore isWord ∨
      ∃ ecosystem, ∃ lead ∈ memberLeads, rule = .member ecosystem lead := by
  cases isListed_of_mem_rules hrule with
  | member ecosystem hlead => exact .inr ⟨ecosystem, _, hlead, rfl⟩
  | bracket ecosystem hlead => exact .inl ⟨nofun, stopsBefore_bracket ecosystem _⟩
  | call ecosystem hlead => exact .inl ⟨nofun, stopsBefore_call ecosystem _⟩
  | publicStart ecosystem hlead =>
    exact .inl ⟨nofun,
      stopsBefore_publicStart ecosystem (isVariableName_of_mem_publicLeads _ hlead)⟩
  | braced ecosystem => exact .inl ⟨nofun, stopsBefore_braced ecosystem⟩
  | dollar ecosystem => exact .inl ⟨nofun, stopsBefore_dollar ecosystem⟩

theorem exists_of_matchAt?_member {ecosystem lead : String} {before : Option Char} {found : Match}
    (hfound : (Rule.member ecosystem lead).regex.matchAt? before text = some found) :
    ∃ name, text = lead.toList ++ (name ++ found.rest) ∧ IsVariableName name ∧
      found.rest.head?.any isNameChar = false ∧
        found.captured = some ⟨name ++ found.rest, name.length⟩ := by
  have hgreedy : IsGreedy isNameChar (Rule.member ecosystem lead).regex :=
    (isSingle_literal lead).seq_isGreedy isGreedy_shape.group
  obtain ⟨start, name, closing, rfl, hcaptured, ⟨_, hstart⟩, ⟨_, hname⟩, hclosing⟩ :=
    exists_of_captured [literal lead] []
      (fun _ _ _ _ htakes => (takes_inOrder_nil_iff.mp htakes).2) (List.mem_of_head? hfound)
  obtain ⟨rfl, -⟩ := takes_inOrder_nil_iff.mp hclosing
  obtain ⟨_, rfl, hnil⟩ := takes_inOrder_literal_iff.mp hstart
  obtain ⟨rfl, -⟩ := takes_inOrder_nil_iff.mp hnil
  rw [List.append_nil]
  exact ⟨name, rfl, (takes_shape_iff.mp hname).1, hgreedy _ _ _ hfound, hcaptured⟩

theorem stopsBefore_member (ecosystem lead : String) :
    (Rule.member ecosystem lead).StopsBefore isNameChar := by
  intro before text found hfound capture hcapture
  obtain ⟨name, -, -, hend, hcaptured⟩ := exists_of_matchAt?_member hfound
  obtain rfl := Option.some.inj (hcaptured.symm.trans hcapture)
  rwa [Capture.after, List.drop_left]

/-- Members are captured wherever they stand, up to the first character that no name has. -/
theorem capturesBefore_member_iff {ecosystem lead : String} (hrule : Rule.member ecosystem lead ∈ rules) :
    (Rule.member ecosystem lead).CapturesBefore text name after ↔
      lead.toList ++ (name.toList ++ after) <:+ text ∧ IsVariableName name.toList ∧
        after.head?.any isNameChar = false := by
  constructor
  · rintro ⟨found, hfound, capture, hcapture, hname, rfl⟩
    obtain ⟨front, back, rfl, hmatch⟩ := exists_matchAt?_of_mem_findAllFrom hfound
    obtain ⟨chars, rfl, hchars, hend, hcaptured⟩ := exists_of_matchAt?_member hmatch
    obtain rfl := Option.some.inj (hcaptured.symm.trans hcapture)
    rw [Capture.toList, List.take_left] at hname
    rw [Capture.after, List.drop_left, ← hname]
    exact ⟨⟨front, rfl⟩, hchars, hend⟩
  · rintro ⟨⟨front, rfl⟩, hname, hend⟩
    obtain ⟨form, hclear, hform⟩ := exists_form_of_mem_rules hrule
    have hrefers : (memberForm lead).Refers (lastOr none front) after name.toList _ :=
      .mk [] [] [] (by simp) (fun _ => rfl) .nil hname List.nil_prefix
        (List.length_pos_iff.mpr hname.ne_nil) .nil hend (by simp [memberForm])
    obtain ⟨found, hfound⟩ :=
      exists_matchAt?_of_takes ((Rule.hasForm_member ecosystem lead).takes _ _ _ _ hrefers)
    obtain ⟨chars, htext, hchars, hend', hcaptured⟩ := exists_of_matchAt?_member hfound
    have hsplit : name.toList ++ after = chars ++ found.rest := by
      simpa [memberForm] using htext
    obtain ⟨rfl, rfl⟩ := append_inj_of_forall hname.isNameChar hchars.isNameChar hend hend' hsplit
    refine ⟨found, (hform.isApart hclear).mem_findAllFrom ?_ hfound, _, hcaptured, ?_, ?_⟩
    · simp [memberForm]
    · rw [Capture.toList, List.take_left]
    · rw [Capture.after, List.drop_left]

theorem exists_member_mem_rules {lead : String} (hlead : lead ∈ memberLeads) :
    ∃ ecosystem, Rule.member ecosystem lead ∈ rules := by
  simp only [memberLeads, List.mem_cons, List.not_mem_nil, or_false] at hlead
  rcases hlead with rfl | rfl
  · exact ⟨"node", by simp [rules]⟩
  · exact ⟨"vite", by simp [rules]⟩

/-- **Names end where words end, except names of members.** No rule captures a name that goes on after
it, and no rule but those for members one before a character of a word. What is found is captured before
the end of a word too, unless it stands as a member before a character of a word that no name has; and
wherever a name stands so, it is captured. -/
theorem candidates_end_with_words (text : List Char) :
    (∀ rule ∈ rules, ∀ name after, rule.CapturesBefore text name after →
        after.head?.any isNameChar = false ∧
          (rule.convention ≠ .member → after.head?.any isWord = false)) ∧
      (∀ name ∈ candidates text,
        (∃ rule ∈ rules, ∃ after, rule.CapturesBefore text name after ∧ after.head?.any isWord = false) ∨
          ∃ lead ∈ memberLeads, ∃ c, isWord c = true ∧ isNameChar c = false ∧
            lead.toList ++ (name.toList ++ [c]) <:+: text) ∧
        ∀ lead ∈ memberLeads, ∀ name : String, IsVariableName name.toList →
          ∀ c rest, isNameChar c = false → lead.toList ++ (name.toList ++ c :: rest) <:+ text →
            ∃ rule ∈ rules, rule.CapturesBefore text name (c :: rest) := by
  refine ⟨?_, ?_, ?_⟩
  · intro rule hrule name after hcaptures
    rcases stopsBefore_or_member hrule with ⟨-, hstops⟩ | ⟨ecosystem, lead, -, rfl⟩
    · have hword := hstops.head?_any_eq_false hcaptures
      exact ⟨any_isNameChar_eq_false hword, fun _ => hword⟩
    · exact ⟨(stopsBefore_member ecosystem lead).head?_any_eq_false hcaptures,
        fun hmember => absurd rfl hmember⟩
  · intro name hname
    obtain ⟨⟨rule, hrule, hextract⟩, -⟩ := mem_candidates_iff.mp hname
    obtain ⟨after, hcaptures⟩ := mem_extract_iff_capturesBefore.mp hextract
    cases hword : after.head?.any isWord with
    | false => exact .inl ⟨rule, hrule, after, hcaptures, hword⟩
    | true =>
      right
      rcases stopsBefore_or_member hrule with ⟨-, hstops⟩ | ⟨ecosystem, lead, hlead, rfl⟩
      · rw [hstops.head?_any_eq_false hcaptures] at hword
        exact Bool.noConfusion hword
      · obtain ⟨⟨front, rfl⟩, -, hend⟩ := (capturesBefore_member_iff hrule).mp hcaptures
        cases after with
        | nil => exact Bool.noConfusion hword
        | cons c rest => exact ⟨lead, hlead, c, hword, hend, front, rest, by simp⟩
  · intro lead hlead name hname c rest hc htext
    obtain ⟨ecosystem, hrule⟩ := exists_member_mem_rules hlead
    exact ⟨_, hrule, (capturesBefore_member_iff hrule).mpr ⟨htext, hname, hc⟩⟩

/-- A member before a full stop. -/
theorem candidates_end_with_words_of_member :
    "API_KEY" ∈ candidates "process.env.API_KEY.s".toList ∧
      ((∃ rule ∈ rules, ∃ after,
          rule.CapturesBefore "process.env.API_KEY.s".toList "API_KEY" after ∧
            after.head?.any isWord = false) ∨
        ∃ lead ∈ memberLeads, ∃ c, isWord c = true ∧ isNameChar c = false ∧
          lead.toList ++ ("API_KEY".toList ++ [c]) <:+: "process.env.API_KEY.s".toList) :=
  have hname : "API_KEY" ∈ candidates "process.env.API_KEY.s".toList := by decide +kernel
  ⟨hname, (candidates_end_with_words _).2.1 "API_KEY" hname⟩

/-- A member with a small letter at its end is found without it, and by no rule up to the end of a word. -/
theorem exists_candidate_within_word :
    "API_KEY" ∈ candidates "process.env.API_KEYs".toList ∧
      ¬∃ rule ∈ rules, ∃ after, rule.CapturesBefore "process.env.API_KEYs".toList "API_KEY" after ∧
        after.head?.any isWord = false := by
  refine ⟨by decide +kernel, ?_⟩
  rintro ⟨rule, hrule, after, ⟨found, hfound, capture, hcapture, -, rfl⟩, hword⟩
  have hall : ∀ rule ∈ rules, ∀ found ∈ rule.regex.findAll "process.env.API_KEYs".toList,
      ∀ capture ∈ found.captured, capture.after.head?.any isWord = true := by decide +kernel
  rw [hall rule hrule found hfound capture hcapture] at hword
  exact Bool.noConfusion hword

end EnvFill.Name
