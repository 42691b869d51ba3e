import EnvFill.Proofs.Outcome

/-!
# How the parts of a command end

Equations for the parts that commands are made of: each says what comes of the part, and which piece of
the world it changes.
-/

namespace EnvFill.Command.Procedure

open Storage Screen

variable {α : Type} {world after : World}

theorem outcome_talk (dialogue : Dialogue α) (world : World) :
    outcome (talk dialogue) world =
      ((outcome dialogue world.terminal).1.mapError fun _ => .endOfInput,
        { world with terminal := (outcome dialogue world.terminal).2 }) := by
  have htalk : outcome (talk dialogue) world =
      match outcome dialogue world.terminal with
      | (.ok a, terminal) => (.ok a, { world with terminal := terminal })
      | (.error _, terminal) => (.error .endOfInput, { world with terminal := terminal }) := rfl
  rw [htalk]
  rcases outcome dialogue world.terminal with ⟨result, terminal⟩
  cases result <;> rfl

theorem outcome_display (events : List Event) (world : World) :
    outcome (display events) world = (.ok (), { world with terminal :=
      { world.terminal with events := world.terminal.events ++ events } }) := rfl

theorem outcome_write (text : String) (world : World) :
    outcome (write text) world = (.ok (), { world with output := world.output ++ text }) := rfl

theorem outcome_lookUp (question : Disk → Except Error α) (world : World) :
    outcome (lookUp question) world = (question world.disk, world) := by
  have hget : outcome (get : Procedure World) world = (.ok world, world) := rfl
  unfold lookUp
  rw [outcome_bind, hget]
  dsimp only
  cases question world.disk <;> rfl

theorem outcome_change (edit : Edit Error α) (world : World) :
    outcome (change edit) world =
      ((outcome edit world.disk).1, { world with disk := (outcome edit world.disk).2 }) := rfl

def errorLine (error : Error) : Event :=
  let message := error.message
  line s!"[red]Error:[/red] {message}"

theorem outcome_attempt (action : Procedure α) (world : World) :
    outcome (attempt action) world =
      match outcome action world with
      | (.ok a, after) => (.ok (some a), after)
      | (.error error, after) =>
        if error.isReported then (.ok none, { after with terminal :=
          { after.terminal with events := after.terminal.events ++ [errorLine error] } })
        else (.error error, after) := by
  have hmap := outcome_bind action (fun a => (pure (some a) : Procedure (Option α))) world
  rw [← map_eq_pure_bind] at hmap
  rcases haction : outcome action world with ⟨result, after⟩
  rw [haction] at hmap
  cases result with
  | ok a => exact outcome_tryCatch_of_ok hmap _
  | error error =>
    unfold attempt
    rw [outcome_tryCatch_of_error hmap]
    dsimp only
    split <;> rfl

def LeavesDisk (action : Procedure α) : Prop :=
  ∀ world, (outcome action world).2.disk = world.disk

section Leaves

variable {β γ : Type} {action : Procedure α} {next : α → Procedure β}

theorem leavesDisk_pure (a : α) : LeavesDisk (pure a : Procedure α) := fun _ => rfl

theorem LeavesDisk.bind (haction : LeavesDisk action) (hnext : ∀ a, LeavesDisk (next a)) :
    LeavesDisk (action >>= next) := by
  intro world
  rw [outcome_bind, ← haction world]
  rcases outcome action world with ⟨result, after⟩
  cases result with
  | ok a => exact hnext a after
  | error error => rfl

theorem leavesDisk_talk (dialogue : Dialogue α) : LeavesDisk (talk dialogue) := by
  intro world
  rw [outcome_talk]

theorem leavesDisk_display (events : List Event) : LeavesDisk (display events) := fun _ => rfl

theorem leavesDisk_lookUp (question : Disk → Except Error α) : LeavesDisk (lookUp question) := by
  intro world
  rw [outcome_lookUp]

theorem leavesDisk_get : LeavesDisk (get : Procedure World) := fun _ => rfl

/-- What the later steps leave alone is as the action left it. -/
theorem kept_bind {f : World → γ}
    (hnext : ∀ a world, f (outcome (next a) world).2 = f world) :
    f (outcome (action >>= next) world).2 = f (outcome action world).2 := by
  rw [outcome_bind]
  rcases outcome action world with ⟨result, after⟩
  cases result with
  | ok a => exact hnext a after
  | error error => rfl

theorem disk_bind_of_leavesDisk (hnext : ∀ a, LeavesDisk (next a)) :
    (outcome (action >>= next) world).2.disk = (outcome action world).2.disk :=
  kept_bind hnext

/-- Two commands that begin alike change the disk alike if they go on so. -/
theorem disk_bind_congr {other : α → Procedure γ}
    (hnext : ∀ a world, (outcome (next a) world).2.disk = (outcome (other a) world).2.disk) :
    (outcome (action >>= next) world).2.disk = (outcome (action >>= other) world).2.disk := by
  rw [outcome_bind, outcome_bind]
  rcases outcome action world with ⟨result, after⟩
  cases result with
  | ok a => exact hnext a after
  | error error => rfl

/-- Catching an error changes nothing but what is shown. -/
theorem exists_terminal_of_attempt (action : Procedure α) (world : World) :
    ∃ terminal, (outcome (attempt action) world).2 =
      { (outcome action world).2 with terminal := terminal } := by
  rw [outcome_attempt]
  rcases outcome action world with ⟨result, after⟩
  cases result with
  | ok a => exact ⟨after.terminal, rfl⟩
  | error error =>
    dsimp only
    split
    · exact ⟨_, rfl⟩
    · exact ⟨after.terminal, rfl⟩

theorem disk_attempt (action : Procedure α) (world : World) :
    (outcome (attempt action) world).2.disk = (outcome action world).2.disk := by
  obtain ⟨terminal, hafter⟩ := exists_terminal_of_attempt action world
  rw [hafter]

theorem tally_attempt (action : Procedure α) (world : World) :
    (outcome (attempt action) world).2.tally = (outcome action world).2.tally := by
  obtain ⟨terminal, hafter⟩ := exists_terminal_of_attempt action world
  rw [hafter]

theorem LeavesDisk.attempt (haction : LeavesDisk action) :
    LeavesDisk (Procedure.attempt action) :=
  fun world => (disk_attempt action world).trans (haction world)

theorem LeavesDisk.of_succeeds {a : α} (haction : LeavesDisk action)
    (hrun : Succeeds action world a after) : after.disk = world.disk := by
  have hdisk := haction world
  rwa [hrun] at hdisk

end Leaves

end EnvFill.Command.Procedure
