import EnvFill.Proofs.Outcome
import EnvFill.Screen.Questions

/-!
# Lines that a conversation reads

A conversation only takes lines from the input. Every question for a value takes at least one, so
that a session has no more questions than there are lines.
-/

namespace EnvFill.Screen

open Dialogue EnvFile Fill

/-- A conversation that comes to a result has read at least `count` lines. -/
def Reads {α : Type} (count : Nat) (dialogue : Dialogue α) : Prop :=
  ∀ ⦃terminal a later⦄, Succeeds dialogue terminal a later →
    later.input.length + count ≤ terminal.input.length

section Parts

variable {α β : Type} {count more : Nat} {dialogue : Dialogue α}

theorem Reads.mono (hreads : Reads count dialogue) (hle : more ≤ count) : Reads more dialogue := by
  intro terminal a later hrun
  have hcount := hreads hrun
  omega

theorem reads_pure (a : α) : Reads 0 (pure a) := by
  intro terminal b later hrun
  obtain ⟨-, rfl⟩ := succeeds_pure_iff.mp hrun
  exact Nat.le_refl _

theorem reads_throw (error : EndOfInput) : Reads count (throw error : Dialogue α) :=
  fun _ _ _ hrun => absurd hrun not_succeeds_throw

theorem Reads.bind {next : α → Dialogue β} (hfirst : Reads count dialogue)
    (hnext : ∀ a, Reads more (next a)) : Reads (count + more) (dialogue >>= next) := by
  intro terminal b later hrun
  obtain ⟨a, middle, hfirstRun, hnextRun⟩ := succeeds_bind_iff.mp hrun
  have hcount := hfirst hfirstRun
  have hmore := hnext a hnextRun
  omega

theorem Reads.bind_zero {next : α → Dialogue β} (hfirst : Reads count dialogue)
    (hnext : ∀ a, Reads 0 (next a)) : Reads count (dialogue >>= next) :=
  hfirst.bind hnext

theorem reads_bind {next : α → Dialogue β} (hfirst : Reads 0 dialogue)
    (hnext : ∀ a, Reads count (next a)) : Reads count (dialogue >>= next) :=
  (hfirst.bind hnext).mono (Nat.le_add_left count 0)

theorem reads_get : Reads 0 (get : Dialogue Terminal) := by
  intro terminal a later hrun
  obtain ⟨-, rfl⟩ := succeeds_get_iff.mp hrun
  exact Nat.le_refl _

/-- What does not touch the input reads nothing. -/
theorem reads_modify {f : Terminal → Terminal}
    (hinput : ∀ terminal, (f terminal).input.length ≤ terminal.input.length) :
    Reads 0 (modify f : Dialogue Unit) := by
  intro terminal a later hrun
  obtain rfl := succeeds_modify_iff.mp hrun
  exact hinput terminal

theorem reads_display (events : List Event) : Reads 0 (display events) :=
  reads_modify fun _ => Nat.le_refl _

theorem reads_readLine (prompt : String) (hidden : Bool) : Reads 1 (readLine prompt hidden) := by
  refine reads_bind (reads_display _) fun _ => ?_
  intro terminal answer later hrun
  obtain ⟨_, _, hget, hanswer⟩ := succeeds_bind_iff.mp hrun
  obtain ⟨rfl, rfl⟩ := succeeds_get_iff.mp hget
  split at hanswer
  · exact absurd hanswer not_succeeds_throw
  · rename_i line rest hinput
    obtain ⟨_, _, hmodify, hpure⟩ := succeeds_bind_iff.mp hanswer
    obtain rfl := succeeds_modify_iff.mp hmodify
    obtain ⟨-, rfl⟩ := succeeds_pure_iff.mp hpure
    rw [hinput, List.length_cons]

theorem reads_repeated {attempt : Dialogue (Option α)} (hattempt : Reads count attempt)
    (rounds : Nat) : Reads count (Dialogue.repeated attempt rounds) := by
  induction rounds with
  | zero => exact reads_throw _
  | succ rounds ih =>
    refine hattempt.bind_zero fun answer => ?_
    cases answer with
    | some a => exact reads_pure a
    | none => exact ih.mono (Nat.zero_le count)

theorem reads_untilAnswered {attempt : Dialogue (Option α)} (hattempt : Reads count attempt) :
    Reads count (untilAnswered attempt) :=
  reads_bind reads_get fun terminal => reads_repeated hattempt (terminal.input.length + 1)

end Parts

/-! ### Questions -/

theorem Prompt.reads_ask (prompt : Prompt) : Reads 1 prompt.ask := by
  refine reads_untilAnswered ((reads_readLine _ _).bind_zero fun answer => ?_)
  split
  · exact reads_pure _
  · exact reads_bind (reads_display _) fun _ => reads_pure none

theorem reads_confirm (text : String) (usual : Bool) : Reads 1 (confirm text usual) := by
  refine reads_untilAnswered ((reads_readLine _ _).bind_zero fun answer => ?_)
  split
  · exact reads_pure _
  · exact reads_bind (reads_display _) fun _ => reads_pure none

theorem reads_readPasted (rounds : Nat) (lines : List String) :
    Reads 0 (readPasted rounds lines) := by
  induction rounds generalizing lines with
  | zero => exact reads_pure lines
  | succ rounds ih =>
    refine reads_bind (reads_display _) fun _ => ?_
    intro terminal pasted later hrun
    obtain ⟨_, _, hget, hanswer⟩ := succeeds_bind_iff.mp hrun
    obtain ⟨rfl, rfl⟩ := succeeds_get_iff.mp hget
    split at hanswer
    · exact reads_pure _ hanswer
    · rename_i line rest hinput
      obtain ⟨_, _, hmodify, hrest⟩ := succeeds_bind_iff.mp hanswer
      obtain rfl := succeeds_modify_iff.mp hmodify
      have hbelow : later.input.length ≤ rest.length := by
        split at hrest
        · split at hrest
          · exact ih lines hrest
          · exact reads_pure _ hrest
        · exact reads_bind (reads_display _) (fun _ => ih _) hrest
      rw [hinput, List.length_cons]
      omega

theorem reads_readPaste : Reads 0 readPaste := by
  refine reads_bind (reads_display _) fun _ => reads_bind reads_get fun terminal => ?_
  exact reads_bind (reads_readPasted _ _) fun _ => reads_pure _

theorem reads_obey (question : Question) (command : Command) : Reads 0 (obey question command) := by
  cases command with
  | stop =>
    refine reads_bind ((reads_confirm _ _).mono (Nat.zero_le 1)) fun confirmed => ?_
    cases confirmed with
    | true => exact reads_bind (reads_display _) fun _ => reads_pure _
    | false => exact reads_pure _
  | skipAll =>
    refine reads_bind ((reads_confirm _ _).mono (Nat.zero_le 1)) fun confirmed => ?_
    cases confirmed with
    | true => exact reads_pure _
    | false => exact reads_pure _
  | back =>
    unfold obey
    dsimp only
    split
    · exact reads_bind (reads_display _) fun _ => reads_pure _
    · refine reads_bind (reads_modify fun _ => Nat.le_refl _) fun _ => ?_
      exact reads_bind (reads_display _) fun _ => reads_pure _
  | paste => exact reads_bind reads_readPaste fun _ => reads_pure _
  | skip => exact reads_bind (reads_display _) fun _ => reads_pure _
  | clear => exact reads_pure _

theorem not_succeeds_bind {α β : Type} {terminal later : Terminal} {first : Dialogue α}
    {next : α → Dialogue β} {b : β} (hnext : ∀ a middle, ¬Succeeds (next a) middle b later) :
    ¬Succeeds (first >>= next) terminal b later := by
  intro hrun
  obtain ⟨a, middle, -, hrest⟩ := succeeds_bind_iff.mp hrun
  exact hnext a middle hrest

/-- No command is a value. -/
theorem not_succeeds_obey_value {question : Question} {command : Command} {terminal later : Terminal}
    {text : String} :
    ¬Succeeds (obey question command) terminal (some (.value text)) later := by
  cases command with
  | stop =>
    refine not_succeeds_bind fun confirmed _ => ?_
    cases confirmed with
    | true => exact not_succeeds_bind fun _ _ => by simp
    | false => simp
  | skipAll =>
    refine not_succeeds_bind fun confirmed _ => ?_
    cases confirmed <;> simp
  | back =>
    unfold obey
    dsimp only
    split
    · exact not_succeeds_bind fun _ _ => by simp
    · exact not_succeeds_bind fun _ _ => not_succeeds_bind fun _ _ => by simp
  | paste => exact not_succeeds_bind fun _ _ => by simp
  | skip => exact not_succeeds_bind fun _ _ => by simp
  | clear => simp [obey]

/-- A value that is given at once is the answer to the question, and is taken for no command. -/
theorem answer_of_askValueOnce {question : Question} {terminal later : Terminal} {text : String}
    (hask : Succeeds (askValueOnce question) terminal (some (.value text)) later) :
    Succeeds (valuePrompt question).ask terminal text later ∧
      commandWord text ∉ ["help", "?", "list"] ∧ Command.parse? text = none := by
  obtain ⟨answer, middle, hanswer, hrest⟩ := succeeds_bind_iff.mp hask
  dsimp only at hrest
  split at hrest
  · exact absurd hrest (not_succeeds_bind fun _ _ => by simp)
  split at hrest
  · exact absurd hrest (not_succeeds_bind fun _ _ => by simp)
  rename_i hhelp hlist
  split at hrest
  · rename_i hparse
    obtain ⟨hvalue, rfl⟩ := succeeds_pure_iff.mp hrest
    obtain rfl := Response.value.inj (Option.some.inj hvalue)
    refine ⟨hanswer, ?_, hparse⟩
    simp_all
  · exact absurd hrest not_succeeds_obey_value

theorem reads_askValueOnce (question : Question) : Reads 1 (askValueOnce question) := by
  refine (Prompt.reads_ask _).bind_zero fun answer => ?_
  dsimp only
  split
  · exact reads_bind (reads_display _) fun _ => reads_pure _
  · split
    · exact reads_bind (reads_display _) fun _ => reads_pure _
    · split
      · exact reads_pure _
      · exact reads_obey question _

theorem reads_showHeading (key : String) : Reads 0 (showHeading key) := by
  unfold showHeading
  split
  · exact reads_pure _
  · refine reads_bind reads_get fun terminal => ?_
    split
    · exact reads_bind (reads_display _) fun _ =>
        reads_modify fun terminal => Nat.le_refl terminal.input.length
    · exact reads_pure _

/-- **A question for a value takes a line.** -/
theorem reads_askValue (question : Question) : Reads 1 (askValue question) := by
  refine reads_bind (reads_showHeading _) fun _ => reads_bind (reads_display _) fun _ => ?_
  exact reads_untilAnswered (reads_askValueOnce question)

/-! ### Answers that are taken at once -/

section Taken

variable {α : Type} {terminal later : Terminal} {entered answer : String} {rest : List String}

theorem exists_succeeds_display (terminal : Terminal) (events : List Event) :
    ∃ later, Succeeds (display events) terminal () later ∧ later.input = terminal.input ∧
      later.heading = terminal.heading :=
  ⟨_, succeeds_modify_iff.mpr rfl, rfl, rfl⟩

theorem exists_succeeds_readLine (hinput : terminal.input = entered :: rest) (prompt : String)
    (hidden : Bool) :
    ∃ later, Succeeds (readLine prompt hidden) terminal entered later ∧ later.input = rest := by
  obtain ⟨shown, hdisplay, hsame, -⟩ := exists_succeeds_display terminal [.asked prompt hidden]
  rw [hinput] at hsame
  refine ⟨{ shown with input := rest }, succeeds_bind_iff.mpr ⟨(), shown, hdisplay, ?_⟩, rfl⟩
  refine succeeds_bind_iff.mpr ⟨shown, shown, succeeds_get_iff.mpr ⟨rfl, rfl⟩, ?_⟩
  rw [hsame]
  exact succeeds_bind_iff.mpr
    ⟨(), _, succeeds_modify_iff.mpr rfl, succeeds_pure_iff.mpr ⟨rfl, rfl⟩⟩

theorem succeeds_untilAnswered {attempt : Dialogue (Option α)} {a : α}
    (hattempt : Succeeds attempt terminal (some a) later) :
    Succeeds (untilAnswered attempt) terminal a later := by
  refine succeeds_bind_iff.mpr ⟨terminal, terminal, succeeds_get_iff.mpr ⟨rfl, rfl⟩, ?_⟩
  exact succeeds_bind_iff.mpr ⟨some a, later, hattempt, succeeds_pure_iff.mpr ⟨rfl, rfl⟩⟩

theorem exists_succeeds_startSession (terminal : Terminal) :
    ∃ later, Succeeds startSession terminal () later ∧ later.input = terminal.input := by
  obtain ⟨later, hdisplay, hsame, -⟩ :=
    exists_succeeds_display { terminal with heading := none } commandPanel
  exact ⟨later, succeeds_bind_iff.mpr ⟨(), _, succeeds_modify_iff.mpr rfl, hdisplay⟩, hsame⟩

/-- An answer that is allowed is taken at once. -/
theorem Prompt.exists_succeeds_ask {prompt : Prompt} (hinput : terminal.input = entered :: rest)
    (haccept : prompt.accept entered = some answer) :
    ∃ later, Succeeds prompt.ask terminal answer later ∧ later.input = rest := by
  obtain ⟨later, hread, hrest⟩ := exists_succeeds_readLine hinput prompt.shown prompt.hidden
  refine ⟨later, succeeds_untilAnswered (succeeds_bind_iff.mpr ⟨entered, later, hread, ?_⟩), hrest⟩
  rw [haccept]
  exact succeeds_pure_iff.mpr ⟨rfl, rfl⟩

def Mode.ofLine? (stats : Stats) (entered : String) : Option Mode :=
  let words := (Mode.available stats).map Mode.word
  (Prompt.accept { text := "Select mode", choices := words, usual := words.headD "" } entered).map
    fun answer => (Mode.available stats)[words.idxOf answer]?.getD .exit

theorem exists_succeeds_chooseMode {stats : Stats} {mode : Mode}
    (hinput : terminal.input = entered :: rest) (hmode : Mode.ofLine? stats entered = some mode) :
    ∃ later, Succeeds (chooseMode stats) terminal mode later ∧ later.input = rest := by
  obtain ⟨answer, haccept, rfl⟩ := Option.map_eq_some_iff.mp hmode
  obtain ⟨shown, hdisplay, hsame, -⟩ :=
    exists_succeeds_display terminal ((Mode.available stats).map (Mode.offer stats))
  obtain ⟨later, hask, hrest⟩ := Prompt.exists_succeeds_ask (hsame.trans hinput) haccept
  exact ⟨later, succeeds_bind_iff.mpr ⟨(), shown, hdisplay,
    succeeds_bind_iff.mpr ⟨answer, later, hask, succeeds_pure_iff.mpr ⟨rfl, rfl⟩⟩⟩, hrest⟩

theorem exists_succeeds_showHeading (terminal : Terminal) (key : String) :
    ∃ later, Succeeds (showHeading key) terminal () later ∧ later.input = terminal.input := by
  unfold showHeading
  split
  · exact ⟨terminal, succeeds_pure_iff.mpr ⟨rfl, rfl⟩, rfl⟩
  · rename_i category _
    by_cases hheading : terminal.heading = some category
    · refine ⟨terminal, succeeds_bind_iff.mpr ⟨terminal, terminal,
        succeeds_get_iff.mpr ⟨rfl, rfl⟩, ?_⟩, rfl⟩
      rw [if_neg (not_not.mpr hheading)]
      exact succeeds_pure_iff.mpr ⟨rfl, rfl⟩
    · obtain ⟨shown, hdisplay, hsame, -⟩ := exists_succeeds_display terminal (categoryHeading category)
      refine ⟨{ shown with heading := some category }, succeeds_bind_iff.mpr ⟨terminal, terminal,
        succeeds_get_iff.mpr ⟨rfl, rfl⟩, ?_⟩, hsame⟩
      rw [if_pos hheading]
      exact succeeds_bind_iff.mpr ⟨(), shown, hdisplay, succeeds_modify_iff.mpr rfl⟩

section Entered

variable {question : Question} (hinput : terminal.input = entered :: rest)
  (haccept : (valuePrompt question).accept entered = some answer)
  (hhelp : commandWord answer ∉ ["help", "?", "list"])

include hinput haccept hhelp

/-- A line that is answered without another question: the value is asked for once. -/
theorem exists_succeeds_askValue_of_direct {response : Response}
    (hdirect : ∀ asked, ∃ obeyed, Succeeds ((Command.parse? answer).elim (pure (some (.value answer)))
      (obey question)) asked (some response) obeyed ∧ obeyed.input = asked.input) :
    ∃ later, Succeeds (askValue question) terminal response later ∧ later.input = rest := by
  obtain ⟨headed, hheading, hsame⟩ := exists_succeeds_showHeading terminal question.key
  obtain ⟨shown, hdisplay, hshown, -⟩ := exists_succeeds_display headed (variableCard question)
  obtain ⟨asked, hask, hrest⟩ :=
    Prompt.exists_succeeds_ask (hshown.trans (hsame.trans hinput)) haccept
  obtain ⟨later, hanswer, hkept⟩ := hdirect asked
  simp only [List.mem_cons, List.not_mem_nil, or_false, not_or] at hhelp
  refine ⟨later, ?_, hkept.trans hrest⟩
  refine succeeds_bind_iff.mpr ⟨(), headed, hheading, succeeds_bind_iff.mpr ⟨(), shown, hdisplay, ?_⟩⟩
  refine succeeds_untilAnswered (succeeds_bind_iff.mpr ⟨answer, asked, hask, ?_⟩)
  dsimp only
  rw [if_neg (by simp [hhelp]), if_neg hhelp.2.2]
  cases hparse : Command.parse? answer with
  | none =>
    rw [hparse] at hanswer
    exact hanswer
  | some command =>
    rw [hparse] at hanswer
    exact hanswer

/-- **A line that is no command is a value.** The question is asked once, and the line is taken. -/
theorem exists_succeeds_askValue (hcommand : Command.parse? answer = none) :
    ∃ later, Succeeds (askValue question) terminal (.value answer) later ∧ later.input = rest := by
  refine exists_succeeds_askValue_of_direct hinput haccept hhelp fun asked => ⟨asked, ?_, rfl⟩
  rw [hcommand]
  exact succeeds_pure_iff.mpr ⟨rfl, rfl⟩

theorem exists_succeeds_askValue_clear (hcommand : Command.parse? answer = some .clear) :
    ∃ later, Succeeds (askValue question) terminal .clear later ∧ later.input = rest := by
  refine exists_succeeds_askValue_of_direct hinput haccept hhelp fun asked => ⟨asked, ?_, rfl⟩
  rw [hcommand]
  exact succeeds_pure_iff.mpr ⟨rfl, rfl⟩

/-- Only at the first variable there is nothing to go back to. -/
theorem exists_succeeds_askValue_back (hcommand : Command.parse? answer = some .back)
    (hindex : question.index ≠ 0) :
    ∃ later, Succeeds (askValue question) terminal .back later ∧ later.input = rest := by
  refine exists_succeeds_askValue_of_direct hinput haccept hhelp fun asked => ?_
  obtain ⟨obeyed, hdisplay, hkept, -⟩ := exists_succeeds_display { asked with heading := none }
    [line "[dim]    → Going back...[/dim]"]
  refine ⟨obeyed, ?_, hkept⟩
  rw [hcommand, Option.elim_some, obey, if_neg hindex]
  refine succeeds_bind_iff.mpr ⟨(), _, succeeds_modify_iff.mpr rfl, ?_⟩
  exact succeeds_bind_iff.mpr ⟨(), obeyed, hdisplay, succeeds_pure_iff.mpr ⟨rfl, rfl⟩⟩

end Entered

end Taken

end EnvFill.Screen
