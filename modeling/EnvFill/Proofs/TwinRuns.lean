import EnvFill.Proofs.Matching
import EnvFill.Proofs.SessionRuns
import EnvFill.Screen.Questions

/-!
# One action from two states

An action is run from two states that are alike in what it looks at. It comes to the same result, and leaves
states that are alike in their turn. So a folder is filled in the same way whatever was shown before: of all
that a conversation leaves behind, only the heading that was shown last is looked at again, and a session
forgets it before its first question.
-/

namespace EnvFill

section Carries

variable {ε σ α β : Type} {P Q R : σ → σ → Prop} {action : ExceptT ε (StateM σ) α}
  {next : α → ExceptT ε (StateM σ) β}

/-- From states that `P` relates the action comes to the same result, and to states that `Q` relates. -/
def Carries (P Q : σ → σ → Prop) (action : ExceptT ε (StateM σ) α) : Prop :=
  ∀ s t, P s t → (outcome action s).1 = (outcome action t).1 ∧
    Q (outcome action s).2 (outcome action t).2

theorem Carries.mono {before after : σ → σ → Prop} (hcarries : Carries P Q action)
    (hbefore : ∀ s t, before s t → P s t) (hafter : ∀ s t, Q s t → after s t) :
    Carries before after action :=
  fun s t hst => (hcarries s t (hbefore s t hst)).imp_right (hafter _ _)

theorem carries_eq (action : ExceptT ε (StateM σ) α) : Carries Eq Eq action := by
  rintro s _ rfl
  exact ⟨rfl, rfl⟩

theorem carries_pure (a : α) : Carries P P (pure a : ExceptT ε (StateM σ) α) :=
  fun _ _ hst => ⟨rfl, hst⟩

theorem carries_throw (error : ε) : Carries P P (throw error : ExceptT ε (StateM σ) α) :=
  fun _ _ hst => ⟨rfl, hst⟩

/-- What follows need only carry on from results that there can be. -/
theorem Carries.bind_of_succeeds (haction : Carries P Q action) (hfails : ∀ s t, Q s t → R s t)
    (hnext : ∀ a s t u, P s t → Succeeds action s a u → Carries Q R (next a)) :
    Carries P R (action >>= next) := by
  intro s t hst
  obtain ⟨hresult, hafter⟩ := haction s t hst
  rw [outcome_bind, outcome_bind]
  rcases hone : outcome action s with ⟨result, u⟩
  rcases htwo : outcome action t with ⟨other, v⟩
  rw [hone, htwo] at hresult hafter
  obtain rfl : result = other := hresult
  cases result with
  | ok a => exact hnext a s t u hst hone u v hafter
  | error error => exact ⟨rfl, hfails _ _ hafter⟩

theorem Carries.bind (haction : Carries P Q action) (hnext : ∀ a, Carries Q Q (next a)) :
    Carries P Q (action >>= next) :=
  haction.bind_of_succeeds (fun _ _ => id) fun a _ _ _ _ _ => hnext a

theorem carries_get_bind {next : σ → ExceptT ε (StateM σ) β} (hsame : ∀ s t, P s t → next s = next t)
    (hnext : ∀ s, Carries P Q (next s)) : Carries P Q (get >>= next) := by
  have hget : ∀ s, outcome (get >>= next) s = outcome (next s) s := by
    intro s
    rw [outcome_bind]
    rfl
  intro s t hst
  rw [hget, hget, ← hsame s t hst]
  exact hnext s s t hst

theorem carries_modify {f : σ → σ} (hf : ∀ s t, P s t → Q (f s) (f t)) :
    Carries P Q (modify f : ExceptT ε (StateM σ) Unit) :=
  fun s t hst => ⟨rfl, hf s t hst⟩

/-- A session carries on what its questions and its saves do. -/
theorem Fill.Session.carries_run {names : List String} {found : Fill.Found}
    {ask : Fill.Question → ExceptT ε (StateM σ) Fill.Response}
    {save : EnvFile.Entries → EnvFile.Entries → ExceptT ε (StateM σ) EnvFile.Entries}
    (hask : ∀ question, Carries P P (ask question))
    (hsave : ∀ existing writes, Carries P P (save existing writes)) (rounds : Nat)
    (session : Fill.Session) : Carries P P (run names found ask save rounds session) := by
  induction rounds generalizing session with
  | zero => exact carries_pure session
  | succ rounds ih =>
    cases hname : names[session.index]? with
    | none =>
      rw [run, hname]
      exact carries_pure session
    | some key =>
      rw [run_of_some hname]
      refine (hask _).bind fun response => Carries.bind ?_ fun existing => ?_
      · unfold saveStep
        split
        · exact carries_pure _
        · exact hsave _ _
      · split
        · exact carries_pure _
        · exact ih _

end Carries

namespace Screen

open Dialogue

variable {α : Type} {P : Terminal → Terminal → Prop}

def SameScreen (terminal other : Terminal) : Prop :=
  terminal.input = other.input ∧ terminal.events = other.events

theorem carries_display (events : List Event) : Carries SameScreen SameScreen (display events) :=
  carries_modify fun _ _ hsame => ⟨hsame.1, congrArg (· ++ events) hsame.2⟩

theorem carries_readLine (prompt : String) (hidden : Bool) :
    Carries SameScreen SameScreen (readLine prompt hidden) := by
  refine (carries_display _).bind fun _ => carries_get_bind ?_ fun terminal => ?_
  · intro s t hsame
    rw [hsame.1]
  · split
    · exact carries_throw _
    · exact (carries_modify fun _ _ hsame => ⟨rfl, hsame.2⟩).bind fun _ => carries_pure _

theorem carries_repeated {attempt : Dialogue (Option α)}
    (hattempt : Carries SameScreen SameScreen attempt) (rounds : Nat) :
    Carries SameScreen SameScreen (Dialogue.repeated attempt rounds) := by
  induction rounds with
  | zero => exact carries_throw _
  | succ rounds ih =>
    refine hattempt.bind fun answer => ?_
    cases answer with
    | none => exact ih
    | some a => exact carries_pure a

theorem carries_untilAnswered {attempt : Dialogue (Option α)}
    (hattempt : Carries SameScreen SameScreen attempt) :
    Carries SameScreen SameScreen (untilAnswered attempt) := by
  refine carries_get_bind (fun s t hsame => ?_) fun terminal => carries_repeated hattempt _
  rw [hsame.1]

theorem carries_ask (prompt : Prompt) : Carries SameScreen SameScreen prompt.ask := by
  refine carries_untilAnswered ((carries_readLine _ _).bind fun answer => ?_)
  split
  · exact carries_pure _
  · exact (carries_display _).bind fun _ => carries_pure _

theorem carries_confirm (text : String) (usual : Bool) :
    Carries SameScreen SameScreen (confirm text usual) := by
  refine carries_untilAnswered ((carries_readLine _ _).bind fun answer => ?_)
  split
  · exact carries_pure _
  · exact (carries_display _).bind fun _ => carries_pure _

theorem carries_chooseMode (stats : Fill.Stats) : Carries SameScreen SameScreen (chooseMode stats) :=
  (carries_display _).bind fun _ => (carries_ask _).bind fun _ => carries_pure _

theorem carries_readPasted (rounds : Nat) (lines : List String) :
    Carries SameScreen SameScreen (readPasted rounds lines) := by
  induction rounds generalizing lines with
  | zero => exact carries_pure lines
  | succ rounds ih =>
    refine (carries_display _).bind fun _ => carries_get_bind ?_ fun terminal => ?_
    · intro s t hsame
      rw [hsame.1]
    · split
      · exact carries_pure _
      · refine (carries_modify fun _ _ hsame => ⟨rfl, hsame.2⟩).bind fun _ => ?_
        split
        · split
          · exact ih lines
          · exact carries_pure _
        · exact (carries_display _).bind fun _ => ih _

theorem carries_readPaste : Carries SameScreen SameScreen readPaste := by
  refine (carries_display _).bind fun _ => carries_get_bind (fun s t hsame => ?_) fun terminal => ?_
  · rw [hsame.1]
  · exact (carries_readPasted _ _).bind fun _ => carries_pure _

theorem carries_confirmPaste : Carries SameScreen SameScreen confirmPaste := by
  refine carries_readPaste.bind fun text => ?_
  split
  · exact (carries_display _).bind fun _ => carries_pure _
  dsimp only
  split
  · exact (carries_display _).bind fun _ => carries_pure _
  refine (carries_display _).bind fun _ => (carries_confirm _ _).bind fun isConfirmed => ?_
  split
  · exact carries_pure _
  · exact (carries_display _).bind fun _ => carries_pure _

/-- The heading that was shown last is forgotten when a session begins. -/
theorem carries_startSession : Carries SameScreen Eq startSession := by
  refine Carries.bind (carries_modify ?_) fun _ => carries_eq _
  rintro ⟨input, events, heading⟩ ⟨_, _, other⟩ ⟨rfl, rfl⟩
  rfl

end Screen

namespace Storage.Edit

variable {ε δ α β : Type} {P : Disk → Disk → Prop}

theorem outcome_look (question : Disk → Except ε α) (disk : Disk) :
    outcome (look question) disk = (question disk, disk) := by
  have hget : outcome (get : Edit ε Disk) disk = (.ok disk, disk) := rfl
  unfold look
  rw [outcome_bind, hget]
  dsimp only
  cases question disk <;> rfl

theorem carries_look {question : Disk → Except ε α}
    (hsame : ∀ disk other, P disk other → question disk = question other) :
    Carries P P (look question) := by
  intro disk other hdisks
  rw [outcome_look, outcome_look]
  exact ⟨hsame disk other hdisks, hdisks⟩

/-- What is found need not be the same if it does not matter. -/
theorem carries_look_bind {question : Disk → Except ε α} {next : Edit ε β}
    (hsame : ∀ disk other, P disk other → Matching (fun _ _ => True) (question disk) (question other))
    (hnext : Carries P P next) : Carries P P (look question >>= fun _ => next) := by
  intro disk other hdisks
  have hmatch := hsame disk other hdisks
  rw [outcome_bind, outcome_bind, outcome_look, outcome_look]
  cases hone : question disk <;> cases htwo : question other <;> rw [hone, htwo] at hmatch <;>
    cases hmatch
  · exact ⟨rfl, hdisks⟩
  · exact hnext disk other hdisks

theorem carries_mapError {edit : Edit ε α} (hedit : Carries P P edit) (f : ε → δ) :
    Carries P P (edit.mapError f) := by
  intro disk other hdisks
  obtain ⟨hresult, hafter⟩ := hedit disk other hdisks
  exact ⟨congrArg (Except.mapError f) hresult, hafter⟩

end Storage.Edit

namespace Command

open Storage Screen Procedure

variable {α β : Type} {screens later : Terminal → Terminal → Prop} {tallies : Tally → Tally → Prop}
  {disks : Disk → Disk → Prop} {P : World → World → Prop}

structure WorldsAlike (screens : Terminal → Terminal → Prop) (tallies : Tally → Tally → Prop)
    (disks : Disk → Disk → Prop) (world other : World) : Prop where
  screen : screens world.terminal other.terminal
  tally : tallies world.tally other.tally
  disk : disks world.disk other.disk

theorem carries_talk {dialogue : Dialogue α} (hdialogue : Carries screens later dialogue) :
    Carries (WorldsAlike screens tallies disks) (WorldsAlike later tallies disks) (talk dialogue) := by
  intro world other halike
  obtain ⟨hresult, hafter⟩ := hdialogue _ _ halike.screen
  rw [outcome_talk, outcome_talk, hresult]
  exact ⟨rfl, hafter, halike.tally, halike.disk⟩

theorem carries_lookUp {question : Disk → Except Error α}
    (hsame : ∀ disk other, disks disk other → question disk = question other) :
    Carries (WorldsAlike screens tallies disks) (WorldsAlike screens tallies disks)
      (lookUp question) := by
  intro world other halike
  rw [outcome_lookUp, outcome_lookUp]
  exact ⟨hsame _ _ halike.disk, halike⟩

theorem carries_change {edit : Edit Error α} (hedit : Carries disks disks edit) :
    Carries (WorldsAlike screens tallies disks) (WorldsAlike screens tallies disks) (change edit) := by
  intro world other halike
  obtain ⟨hresult, hafter⟩ := hedit _ _ halike.disk
  rw [outcome_change, outcome_change]
  exact ⟨hresult, halike.screen, halike.tally, hafter⟩

theorem Carries.attempt {action : Procedure α}
    (haction : Carries P (WorldsAlike SameScreen tallies disks) action) :
    Carries P (WorldsAlike SameScreen tallies disks) (Procedure.attempt action) := by
  intro world other halike
  obtain ⟨hresult, hafter⟩ := haction world other halike
  rw [outcome_attempt, outcome_attempt]
  rcases hone : outcome action world with ⟨result, after⟩
  rcases htwo : outcome action other with ⟨twin, last⟩
  rw [hone, htwo] at hresult hafter
  obtain rfl : result = twin := hresult
  cases result with
  | ok a => exact ⟨rfl, hafter⟩
  | error error =>
    dsimp only at hafter ⊢
    split
    · have hscreen := (carries_display [errorLine error] _ _ hafter.screen).2
      exact ⟨rfl, hscreen, hafter.tally, hafter.disk⟩
    · exact ⟨rfl, hafter⟩

end Command

end EnvFill
