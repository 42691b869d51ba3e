import EnvFill.Proofs.ReadLines
import EnvFill.Screen.Plain

/-!
# What a conversation asks for

A conversation only adds to the screen and only takes lines from the input, whether it comes to a result or
runs out of lines. Which lines it asks for is proved for its parts, and an answer is traced back to the line
that gave it.
-/

namespace EnvFill.Screen

open Dialogue EnvFile Fill Text

variable {α β : Type} {asks : Event → Prop} {terminal middle later : Terminal}

/-- From one state of the terminal to a later one, lines are taken and events come; all questions among them
are of the given kind. -/
structure Reaches (asks : Event → Prop) (terminal later : Terminal) : Prop where
  input : later.input <:+ terminal.input
  events : ∃ shown, later.events = terminal.events ++ shown ∧
    ∀ event ∈ shown, event.isQuestion = true → asks event

theorem Reaches.refl (terminal : Terminal) : Reaches asks terminal terminal :=
  ⟨List.suffix_refl _, [], (List.append_nil _).symm, fun _ hevent => absurd hevent List.not_mem_nil⟩

theorem Reaches.trans (hfirst : Reaches asks terminal middle) (hsecond : Reaches asks middle later) :
    Reaches asks terminal later := by
  obtain ⟨hinput, before, hbefore, hasks⟩ := hfirst
  obtain ⟨hrest, after, hafter, hmore⟩ := hsecond
  refine ⟨hrest.trans hinput, before ++ after, ?_, fun event hevent => ?_⟩
  · rw [hafter, hbefore, List.append_assoc]
  · exact (List.mem_append.mp hevent).elim (hasks event) (hmore event)

/-- Whatever is typed, the conversation asks only such questions. -/
def AsksOnly (asks : Event → Prop) (dialogue : Dialogue α) : Prop :=
  ∀ terminal, Reaches asks terminal (outcome dialogue terminal).2

section Parts

variable {dialogue : Dialogue α} {attempt : Dialogue (Option α)} {a : α}

theorem AsksOnly.reaches (hdialogue : AsksOnly asks dialogue) (hrun : Succeeds dialogue terminal a later) :
    Reaches asks terminal later := by
  have hreaches := hdialogue terminal
  rwa [hrun] at hreaches

theorem asksOnly_pure (a : α) : AsksOnly asks (pure a) := fun terminal => .refl terminal

theorem asksOnly_throw (error : EndOfInput) : AsksOnly asks (throw error : Dialogue α) :=
  fun terminal => .refl terminal

theorem AsksOnly.bind {next : α → Dialogue β} (hfirst : AsksOnly asks dialogue)
    (hnext : ∀ a, AsksOnly asks (next a)) : AsksOnly asks (dialogue >>= next) := by
  intro terminal
  have hreaches := hfirst terminal
  rw [outcome_bind]
  revert hreaches
  rcases outcome dialogue terminal with ⟨result, middle⟩
  cases result with
  | ok a => exact fun hreaches => hreaches.trans (hnext a middle)
  | error error => exact id

theorem asksOnly_get : AsksOnly asks (get : Dialogue Terminal) := fun terminal => .refl terminal

/-- A change of the heading alone is no event. -/
theorem asksOnly_setHeading (heading : Option String) :
    AsksOnly asks (modify fun terminal => { terminal with heading := heading } : Dialogue Unit) :=
  fun terminal => ⟨List.suffix_refl _, (Reaches.refl terminal).events⟩

theorem asksOnly_display {events : List Event}
    (hasks : ∀ event ∈ events, event.isQuestion = true → asks event) : AsksOnly asks (display events) :=
  fun _ => ⟨List.suffix_refl _, events, rfl, hasks⟩

/-- What is only shown asks for nothing. -/
theorem asksOnly_show {events : List Event} (hquiet : events.any Event.isQuestion = false) :
    AsksOnly asks (display events) := by
  refine asksOnly_display fun event hevent hquestion => ?_
  rw [List.any_eq_false] at hquiet
  exact absurd hquestion (hquiet event hevent)

theorem outcome_readLine (prompt : String) (hidden : Bool) (terminal : Terminal) :
    outcome (readLine prompt hidden) terminal =
      match terminal.input with
      | [] => (.error ⟨⟩, { terminal with events := terminal.events ++ [.asked prompt hidden] })
      | answer :: rest =>
        (.ok answer, { terminal with input := rest, events := terminal.events ++ [.asked prompt hidden] }) := by
  obtain ⟨input, events, heading⟩ := terminal
  cases input <;> rfl

theorem asksOnly_readLine {prompt : String} {hidden : Bool} (hasks : asks (.asked prompt hidden)) :
    AsksOnly asks (readLine prompt hidden) := by
  have hevent : ∀ event ∈ [Event.asked prompt hidden], event.isQuestion = true → asks event :=
    List.forall_mem_singleton.mpr fun _ => hasks
  intro terminal
  rw [outcome_readLine]
  split
  · exact ⟨List.suffix_refl _, _, rfl, hevent⟩
  · rename_i answer rest hinput
    exact ⟨hinput ▸ List.suffix_cons answer rest, _, rfl, hevent⟩

theorem asksOnly_repeated (hattempt : AsksOnly asks attempt) (rounds : Nat) :
    AsksOnly asks (Dialogue.repeated attempt rounds) := by
  induction rounds with
  | zero => exact asksOnly_throw _
  | succ rounds ih =>
    refine hattempt.bind fun answer => ?_
    cases answer with
    | some a => exact asksOnly_pure a
    | none => exact ih

theorem asksOnly_untilAnswered (hattempt : AsksOnly asks attempt) : AsksOnly asks (untilAnswered attempt) :=
  asksOnly_get.bind fun terminal => asksOnly_repeated hattempt (terminal.input.length + 1)

/-- The answer to a question that is repeated comes from its last attempt. -/
theorem exists_attempt_of_repeated (hattempt : AsksOnly asks attempt) {rounds : Nat}
    (hrun : Succeeds (Dialogue.repeated attempt rounds) terminal a later) :
    ∃ middle, Reaches asks terminal middle ∧ Succeeds attempt middle (some a) later := by
  induction rounds generalizing terminal with
  | zero => exact absurd hrun not_succeeds_throw
  | succ rounds ih =>
    obtain ⟨answer, next, htry, hrest⟩ := succeeds_bind_iff.mp hrun
    cases answer with
    | some b =>
      obtain ⟨rfl, rfl⟩ := succeeds_pure_iff.mp hrest
      exact ⟨terminal, .refl terminal, htry⟩
    | none =>
      obtain ⟨middle, hreaches, hlast⟩ := ih hrest
      exact ⟨middle, (hattempt.reaches htry).trans hreaches, hlast⟩

theorem exists_attempt_of_untilAnswered (hattempt : AsksOnly asks attempt)
    (hrun : Succeeds (untilAnswered attempt) terminal a later) :
    ∃ middle, Reaches asks terminal middle ∧ Succeeds attempt middle (some a) later := by
  obtain ⟨_, _, hget, hrounds⟩ := succeeds_bind_iff.mp hrun
  obtain ⟨rfl, rfl⟩ := succeeds_get_iff.mp hget
  exact exists_attempt_of_repeated hattempt hrounds

/-- A question that is repeated is answered by the last line that was read for it. -/
theorem exists_line_of_untilAnswered {prompt : String} {hidden : Bool}
    {next : String → Dialogue (Option α)} (hasks : asks (.asked prompt hidden))
    (hnext : ∀ entered, AsksOnly asks (next entered))
    (hrun : Succeeds (untilAnswered (readLine prompt hidden >>= next)) terminal a later) :
    ∃ middle entered rest, Reaches asks terminal middle ∧ middle.input = entered :: rest ∧
      Succeeds (next entered)
        { middle with input := rest, events := middle.events ++ [.asked prompt hidden] } (some a) later := by
  obtain ⟨middle, hreaches, htry⟩ :=
    exists_attempt_of_untilAnswered ((asksOnly_readLine hasks).bind hnext) hrun
  obtain ⟨entered, read, hline, hanswer⟩ := succeeds_bind_iff.mp htry
  rw [Succeeds, outcome_readLine] at hline
  cases hinput : middle.input with
  | nil => simp [hinput] at hline
  | cons first rest =>
    rw [hinput] at hline
    obtain ⟨hfirst, rfl⟩ := Prod.mk.inj hline
    obtain rfl := Except.ok.inj hfirst
    exact ⟨middle, first, rest, hreaches, hinput, hanswer⟩

end Parts

/-- The answer is what the last line that was read gives, and the question that came last. -/
structure IsAnswered (prompt : Prompt) (answer : String) (terminal later : Terminal) : Prop where
  line : ∃ entered, entered :: later.input <:+ terminal.input ∧ prompt.accept entered = some answer
  question : ∃ shown, later.events = terminal.events ++ shown ++ [.asked prompt.shown prompt.hidden]

theorem IsAnswered.of_reaches {prompt : Prompt} {answer : String} (hreaches : Reaches asks terminal middle)
    (hanswered : IsAnswered prompt answer middle later) : IsAnswered prompt answer terminal later := by
  obtain ⟨hinput, before, hbefore, -⟩ := hreaches
  obtain ⟨⟨entered, hline, haccept⟩, shown, hshown⟩ := hanswered
  refine ⟨⟨entered, hline.trans hinput, haccept⟩, before ++ shown, ?_⟩
  rw [hshown, hbefore, List.append_assoc terminal.events]

namespace Prompt

variable {prompt : Prompt} {answer : String}

theorem asksOnly_ask (hasks : asks (.asked prompt.shown prompt.hidden)) : AsksOnly asks prompt.ask := by
  refine asksOnly_untilAnswered ((asksOnly_readLine hasks).bind fun entered => ?_)
  split
  · exact asksOnly_pure _
  · exact (asksOnly_show rfl).bind fun _ => asksOnly_pure none

theorem isAnswered_of_ask (hasks : asks (.asked prompt.shown prompt.hidden))
    (hrun : Succeeds prompt.ask terminal answer later) : IsAnswered prompt answer terminal later := by
  obtain ⟨middle, entered, rest, hreaches, hinput, hanswer⟩ :=
    exists_line_of_untilAnswered hasks (fun entered => by
      split
      · exact asksOnly_pure _
      · exact (asksOnly_show rfl).bind fun _ => asksOnly_pure none) hrun
  split at hanswer
  · rename_i haccept
    obtain ⟨hsome, rfl⟩ := succeeds_pure_iff.mp hanswer
    obtain rfl := Option.some.inj hsome
    refine .of_reaches hreaches ⟨⟨entered, hinput ▸ List.suffix_refl _, haccept⟩, [], ?_⟩
    rw [List.append_nil]
  · obtain ⟨_, _, -, hnone⟩ := succeeds_bind_iff.mp hanswer
    simp at hnone

end Prompt

theorem asksOnly_confirm {text : String} {usual : Bool}
    (hasks : asks (.asked (text ++ " [y/n] (" ++ (if usual then "y" else "n") ++ "): ") false)) :
    AsksOnly asks (confirm text usual) := by
  refine asksOnly_untilAnswered ((asksOnly_readLine hasks).bind fun entered => ?_)
  split
  · exact asksOnly_pure _
  · exact (asksOnly_show rfl).bind fun _ => asksOnly_pure none

theorem outcome_get_bind (next : Terminal → Dialogue α) (terminal : Terminal) :
    outcome (get >>= next) terminal = outcome (next terminal) terminal := rfl

theorem asksOnly_readPasted (hasks : asks (.asked "  [cyan]▸[/cyan] " false true)) (rounds : Nat)
    (lines : List String) : AsksOnly asks (readPasted rounds lines) := by
  induction rounds generalizing lines with
  | zero => exact asksOnly_pure lines
  | succ rounds ih =>
    refine (asksOnly_display (List.forall_mem_singleton.mpr fun _ => hasks)).bind fun _ => ?_
    intro terminal
    rw [outcome_get_bind]
    split
    · exact .refl terminal
    · rename_i answer rest hinput
      have htaken : Reaches asks terminal { terminal with input := rest } :=
        ⟨hinput ▸ List.suffix_cons answer rest, (Reaches.refl terminal).events⟩
      refine htaken.trans (?_ : Reaches asks { terminal with input := rest } (outcome (if _ then _ else _) _).2)
      split
      · split
        · exact ih lines _
        · exact .refl _
      · exact ((asksOnly_show rfl).bind fun _ => ih _) _

theorem asksOnly_readPaste (hasks : asks (.asked "  [cyan]▸[/cyan] " false true)) :
    AsksOnly asks readPaste := by
  refine (asksOnly_show rfl).bind fun _ => asksOnly_get.bind fun terminal => ?_
  exact (asksOnly_readPasted hasks _ _).bind fun _ => asksOnly_pure _

/-- What may be asked while the value of a variable is asked for: the value itself, a yes or no, and the lines
of a paste. -/
inductive IsAskedFor (question : Question) : Event → Prop
  | value : IsAskedFor question (.asked (valuePrompt question).shown (valuePrompt question).hidden)
  | confirmation (text : String) (usual : Bool) :
    IsAskedFor question (.asked (text ++ " [y/n] (" ++ (if usual then "y" else "n") ++ "): ") false)
  | paste : IsAskedFor question (.asked "  [cyan]▸[/cyan] " false true)

section Value

variable {question : Question} {text : String}

theorem asksOnly_obey (question : Question) (command : Command) :
    AsksOnly (IsAskedFor question) (obey question command) := by
  cases command with
  | stop =>
    refine (asksOnly_confirm (.confirmation _ _)).bind fun confirmed => ?_
    cases confirmed with
    | true => exact (asksOnly_show rfl).bind fun _ => asksOnly_pure _
    | false => exact asksOnly_pure _
  | skipAll =>
    refine (asksOnly_confirm (.confirmation _ _)).bind fun confirmed => ?_
    cases confirmed with
    | true => exact asksOnly_pure _
    | false => exact asksOnly_pure _
  | back =>
    unfold obey
    dsimp only
    split
    · exact (asksOnly_show rfl).bind fun _ => asksOnly_pure _
    · refine (asksOnly_setHeading none).bind fun _ => ?_
      exact (asksOnly_show rfl).bind fun _ => asksOnly_pure _
  | paste => exact (asksOnly_readPaste .paste).bind fun _ => asksOnly_pure _
  | skip => exact (asksOnly_show rfl).bind fun _ => asksOnly_pure _
  | clear => exact asksOnly_pure _

theorem any_isQuestion_remainingList (remaining : List String) :
    (remainingList remaining).any Event.isQuestion = false := by
  unfold remainingList
  split
  · rfl
  · rw [List.any_cons, List.any_map, Bool.or_eq_false_iff]
    exact ⟨rfl, List.any_eq_false.mpr fun _ _ => Bool.false_ne_true⟩

theorem asksOnly_askValueOnce (question : Question) :
    AsksOnly (IsAskedFor question) (askValueOnce question) := by
  refine (Prompt.asksOnly_ask .value).bind fun answer => ?_
  dsimp only
  split
  · exact (asksOnly_show rfl).bind fun _ => asksOnly_pure _
  · split
    · exact (asksOnly_show (any_isQuestion_remainingList _)).bind fun _ => asksOnly_pure _
    · split
      · exact asksOnly_pure _
      · exact asksOnly_obey question _

theorem asksOnly_showHeading (key : String) : AsksOnly asks (showHeading key) := by
  unfold showHeading
  split
  · exact asksOnly_pure _
  · refine asksOnly_get.bind fun terminal => ?_
    split
    · exact (asksOnly_show rfl).bind fun _ => asksOnly_setHeading _
    · exact asksOnly_pure _

/-- While a value is asked for, nothing else is asked for but a yes or no and the lines of a paste. -/
theorem asksOnly_askValue (question : Question) : AsksOnly (IsAskedFor question) (askValue question) := by
  refine (asksOnly_showHeading _).bind fun _ => (asksOnly_show rfl).bind fun _ => ?_
  exact asksOnly_untilAnswered (asksOnly_askValueOnce question)

/-- The value is the answer to the question that was asked last. -/
theorem isAnswered_of_askValue (hrun : Succeeds (askValue question) terminal (.value text) later) :
    IsAnswered (valuePrompt question) text terminal later := by
  obtain ⟨_, headed, hheading, hcard⟩ := succeeds_bind_iff.mp hrun
  obtain ⟨_, shown, hdisplay, hanswer⟩ := succeeds_bind_iff.mp hcard
  obtain ⟨middle, hreaches, hlast⟩ := exists_attempt_of_untilAnswered (asksOnly_askValueOnce question) hanswer
  have hheaded : Reaches (IsAskedFor question) terminal headed :=
    (asksOnly_showHeading question.key).reaches hheading
  have hshown : Reaches (IsAskedFor question) headed shown := (asksOnly_show rfl).reaches hdisplay
  have hasked : Succeeds (valuePrompt question).ask middle text later := (answer_of_askValueOnce hlast).1
  exact .of_reaches ((hheaded.trans hshown).trans hreaches)
    (Prompt.isAnswered_of_ask (IsAskedFor.value : IsAskedFor question _) hasked)

end Value

end EnvFill.Screen
