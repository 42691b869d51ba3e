import EnvFill.Proofs.AskedLines
import EnvFill.Proofs.Matches
import EnvFill.Proofs.PastedValues

/-!
# Names that are announced as secrets

The hint on a variable and the decision to hide its value come from two tables. Every name for which a hint
announces hidden input holds one of the words that make it a secret, as each word that such a hint looks for
has one of these in it. So what is typed for it is hidden, and so is its value in the preview of a paste.
-/

namespace EnvFill.Name

open Regex

variable {word inner first : String} {others : List String} {name text : List Char}

def HoldsWord (word : String) (name : List Char) : Prop := ∃ part, part <:+: name ∧ Spells word part

/-- A text that spells a word spells what stands in the word. -/
theorem holdsWord_of_spells (hinner : inner.toList <:+: word.toList) (hspells : Spells word text) :
    HoldsWord inner text := by
  obtain ⟨front, back, hword⟩ := hinner
  have hpart := List.forall₂_take inner.toList.length (List.forall₂_drop front.length hspells)
  rw [← hword, List.append_assoc, List.drop_left, List.take_left] at hpart
  exact ⟨_, (List.take_prefix _ _).isInfix.trans (List.drop_suffix _ _).isInfix, hpart⟩

theorem HoldsWord.of_infix (hholds : HoldsWord word name) (hinner : inner.toList <:+: word.toList) :
    HoldsWord inner name := by
  obtain ⟨part, hpart, hspells⟩ := hholds
  obtain ⟨piece, hpiece, hinner⟩ := holdsWord_of_spells hinner hspells
  exact ⟨piece, hpiece.trans hpart, hinner⟩

/-- An expression for several words occurs where one of them stands. -/
theorem occursIn_anyOf_iff (first : String) (others : List String) :
    (anyOf (literalAnyCase first) (others.map literalAnyCase)).occursIn name = true ↔
      ∃ word ∈ first :: others, HoldsWord word name := by
  rw [occursIn_iff_takes]
  simp only [takes_anyOf_iff, ← List.map_cons]
  constructor
  · rintro ⟨front, taken, rest, captured, rfl, regex, hregex, htakes⟩
    obtain ⟨word, hword, rfl⟩ := List.mem_map.mp hregex
    exact ⟨word, hword, taken, ⟨front, rest, List.append_assoc front taken rest⟩,
      (takes_literalAnyCase_iff.mp htakes).1⟩
  · rintro ⟨word, hword, part, ⟨front, rest, rfl⟩, hspells⟩
    exact ⟨front, part, rest, none, List.append_assoc front part rest, literalAnyCase word,
      List.mem_map_of_mem hword, takes_literalAnyCase_iff.mpr ⟨hspells, rfl⟩⟩

/-- What occurs with more after it occurs alone. -/
theorem occursIn_of_inOrder {regex : Regex} {regexes : List Regex}
    (hoccurs : (inOrder (regex :: regexes)).occursIn name = true) : regex.occursIn name = true := by
  rw [occursIn_iff_takes] at hoccurs ⊢
  obtain ⟨front, taken, rest, captured, rfl, htakes⟩ := hoccurs
  rw [takes_inOrder_cons_iff, takes_seq_iff] at htakes
  obtain ⟨head, tail, inHead, -, rfl, hhead, -, -⟩ := htakes
  exact ⟨front, head, tail ++ rest, inHead, by rw [List.append_assoc], hhead⟩

theorem occursIn_alt_iff {left right : Regex} :
    (Regex.alt left right).occursIn name = true ↔
      left.occursIn name = true ∨ right.occursIn name = true := by
  simp only [occursIn_iff_takes, takes_alt_iff, and_or_left, exists_or]

def revealingWords : List String :=
  ["SECRET", "TOKEN", "PASSWORD", "PASS", "KEY", "PRIVATE", "AUTH", "CREDENTIAL"]

variable {key : String} {rule : Regex × Hint} {hint : Hint}

theorem isSecret_iff : isSecret key = true ↔ ∃ word ∈ revealingWords, HoldsWord word key.toList :=
  occursIn_anyOf_iff "SECRET" revealingWords.tail

/-- A word that has one of the others in it makes a secret too. -/
theorem isSecret_of_holdsWord (hinner : ∃ inner ∈ revealingWords, inner.toList <:+: word.toList)
    (hholds : HoldsWord word key.toList) : isSecret key = true := by
  obtain ⟨inner, hword, hinfix⟩ := hinner
  exact isSecret_iff.mpr ⟨inner, hword, hholds.of_infix hinfix⟩

theorem isSecret_of_endsInAnyOf
    (hwords : ∀ word ∈ first :: others, ∃ inner ∈ revealingWords, inner.toList <:+: word.toList)
    (hoccurs : (endsInAnyOf first others).occursIn key.toList = true) : isSecret key = true := by
  obtain ⟨word, hword, hholds⟩ := (occursIn_anyOf_iff first others).mp (occursIn_of_inOrder hoccurs)
  exact isSecret_of_holdsWord (hwords word hword) hholds

/-- The rules that announce a secret. -/
theorem filter_hints_secret :
    hints.filter (fun rule => rule.2.kind = "Secret") =
      [(endsInAnyOf "SECRET"
          ["TOKEN", "API_KEY", "PRIVATE_KEY", "ACCESS_KEY", "ANON_KEY", "SERVICE_ROLE_KEY"],
          ⟨"Secret", "Sensitive, hidden input"⟩),
        (.alt (literalAnyCase "PASSWORD") (endsInAnyOf "PASS" []),
          ⟨"Secret", "Password, hidden input"⟩)] := rfl

/-- A name to which such a rule applies is the name of a secret. -/
theorem isSecret_of_rule (hrule : rule ∈ hints) (hkind : rule.2.kind = "Secret")
    (hoccurs : rule.1.occursIn key.toList = true) :
    isSecret key = true ∧ "hidden input".toList <:+ rule.2.text.toList := by
  have hmem : rule ∈ hints.filter fun rule => rule.2.kind = "Secret" :=
    List.mem_filter.mpr ⟨hrule, decide_eq_true hkind⟩
  rw [filter_hints_secret, List.mem_pair] at hmem
  obtain rfl | rfl := hmem
  · exact ⟨isSecret_of_endsInAnyOf (by decide) hoccurs, by decide⟩
  · refine ⟨?_, by decide⟩
    rcases occursIn_alt_iff.mp hoccurs with hword | hend
    · obtain ⟨word, hpassword, hholds⟩ := (occursIn_anyOf_iff "PASSWORD" []).mp hword
      obtain rfl := List.mem_singleton.mp hpassword
      exact isSecret_of_holdsWord (by decide) hholds
    · exact isSecret_of_endsInAnyOf (by decide) hend

theorem exists_rule_of_hint? (hhint : hint? key = some hint) :
    ∃ rule ∈ hints, rule.2 = hint ∧ rule.1.occursIn key.toList = true := by
  obtain ⟨rule, hfind, rfl⟩ := Option.map_eq_some_iff.mp hhint
  have hoccurs := List.find?_some hfind
  exact ⟨rule, List.mem_of_find?_eq_some hfind, rfl, hoccurs⟩

end EnvFill.Name

namespace EnvFill.Screen

open Dialogue EnvFile Fill

variable {key text : String} {hint : Name.Hint} {question : Question} {terminal read : Terminal}

/-- The value of a secret is asked for with what is typed hidden. -/
theorem asked_valuePrompt (hsecret : Name.isSecret question.key = true) :
    Event.asked (valuePrompt question).shown (valuePrompt question).hidden = .asked "  🔒 Secret: " true := by
  unfold valuePrompt
  rw [hsecret]
  rfl

/-- What is shown first comes right after what was shown before. -/
theorem exists_events_display_bind {α : Type} {asks : Event → Prop} {next : Unit → Dialogue α}
    (hnext : AsksOnly asks (next ())) (events : List Event) (terminal : Terminal) :
    ∃ shown, (outcome (display events >>= next) terminal).2.events =
      terminal.events ++ events ++ shown := by
  obtain ⟨-, shown, hshown, -⟩ := hnext { terminal with events := terminal.events ++ events }
  exact ⟨shown, hshown⟩

/-- Once a paste with settings was read, its preview follows. -/
theorem exists_events_confirmPaste (hread : Succeeds readPaste terminal text read)
    (hkey : key ∈ (Entries.ofPaste text).keys) :
    ∃ shown, (outcome confirmPaste terminal).2.events =
      read.events ++ pastePreview (Entries.ofPaste text) (secretKeys (Entries.ofPaste text)) ++ shown := by
  have hempty : (Entries.ofPaste text).isEmpty = false := by
    rw [OrderedMap.isEmpty, List.isEmpty_eq_false_iff]
    exact fun hnil => List.ne_nil_of_mem hkey (by rw [OrderedMap.keys, hnil, List.map_nil])
  unfold confirmPaste
  rw [outcome_bind, hread]
  dsimp only
  rw [isAllBlank_of_mem_ofPaste hkey, if_neg Bool.false_ne_true, hempty, if_neg Bool.false_ne_true]
  refine exists_events_display_bind (?_ : AsksOnly (fun _ => True) _) _ read
  refine (asksOnly_confirm trivial).bind fun confirmed => ?_
  cases confirmed with
  | true => exact asksOnly_pure _
  | false => exact (asksOnly_show rfl).bind fun _ => asksOnly_pure _

/-- **What is announced as hidden is hidden.** If the hint on a variable is that of a secret, the variable is
one: its value is what is typed after the last question, which hides it, and nothing else is asked for but a
yes or no and the lines of a paste; and the preview of a paste is given it as a secret. -/
theorem announced_secret_is_hidden (hhint : Name.hint? key = some hint) (hkind : hint.kind = "Secret") :
    Name.isSecret key = true ∧ "hidden input".toList <:+ hint.text.toList ∧
      (∀ question : Question, question.key = key → ∀ terminal,
        Event.asked (valuePrompt question).shown (valuePrompt question).hidden =
            .asked "  🔒 Secret: " true ∧
          Reaches (IsAskedFor question) terminal (outcome (askValue question) terminal).2 ∧
          ∀ text later, Succeeds (askValue question) terminal (.value text) later →
            IsAnswered (valuePrompt question) text terminal later) ∧
      ∀ terminal text read, Succeeds readPaste terminal text read → key ∈ (Entries.ofPaste text).keys →
        key ∈ secretKeys (Entries.ofPaste text) ∧
          ∃ shown, (outcome confirmPaste terminal).2.events =
            read.events ++ pastePreview (Entries.ofPaste text) (secretKeys (Entries.ofPaste text)) ++
              shown := by
  obtain ⟨rule, hrule, rfl, hoccurs⟩ := Name.exists_rule_of_hint? hhint
  obtain ⟨hsecret, hannounced⟩ := Name.isSecret_of_rule hrule hkind hoccurs
  refine ⟨hsecret, hannounced, ?_, ?_⟩
  · rintro question rfl terminal
    exact ⟨asked_valuePrompt hsecret, asksOnly_askValue question terminal,
      fun text later hrun => isAnswered_of_askValue hrun⟩
  · intro terminal text read hread hkey
    exact ⟨List.mem_filter.mpr ⟨hkey, hsecret⟩, exists_events_confirmPaste hread hkey⟩

/-- A name with the Kelvin sign for a `K`, and a usual one in a paste. -/
theorem announced_secret_is_hidden_of_kelvin_sign :
    (∃ later, Succeeds (askValue ((Session.start ∅).question ["API_\u212AEY"] ⟨[]⟩ "API_\u212AEY"))
        (.start ["s3cret"]) (.value "s3cret") later ∧
      ∃ shown, later.events = shown ++ [.asked "  🔒 Secret: " true]) ∧
      "API_KEY" ∈ secretKeys (Entries.ofPaste "API_KEY=s3cret") := by
  have hhint : Name.hint? "API_\u212AEY" = some ⟨"Secret", "Sensitive, hidden input"⟩ := by cbv
  have hpasted : Name.hint? "API_KEY" = some ⟨"Secret", "Sensitive, hidden input"⟩ := by cbv
  have hkeys : (Entries.ofPaste "API_KEY=s3cret").keys = ["API_KEY"] := by cbv
  obtain ⟨read, hread⟩ : ∃ read, Succeeds readPaste (.start ["API_KEY=s3cret"]) "API_KEY=s3cret" read :=
    ⟨_, rfl⟩
  obtain ⟨-, -, hvalue, -⟩ := announced_secret_is_hidden hhint rfl
  obtain ⟨-, -, -, hpreview⟩ := announced_secret_is_hidden hpasted rfl
  obtain ⟨hasked, -, hanswered⟩ := hvalue
    ((Session.start ∅).question ["API_\u212AEY"] ⟨[]⟩ "API_\u212AEY") rfl (.start ["s3cret"])
  obtain ⟨later, hrun, -⟩ : ∃ later, Succeeds (askValue _) (.start ["s3cret"]) (.value "s3cret") later ∧
      later.input = [] := exists_succeeds_askValue rfl (by cbv) (by decide) (by decide)
  obtain ⟨-, shown, hshown⟩ := hanswered _ later hrun
  refine ⟨⟨later, hrun, shown, ?_⟩, ?_⟩
  · rw [hshown, hasked]
    rfl
  · exact (hpreview _ _ read hread (hkeys ▸ List.mem_singleton_self _)).1

end EnvFill.Screen
