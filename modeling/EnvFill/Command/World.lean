import EnvFill.Error
import EnvFill.Storage.Write
import EnvFill.Screen.Cards
import EnvFill.Screen.Dialogue

/-!
What a command works on, and the steps that it is made of: conversations, questions to the disk, and
changes of it.
-/

namespace EnvFill.Command

open Storage Screen

/-- How the filling of a folder stands: how many settings were saved, and which keys, each once. -/
structure Tally where
  saved : Nat
  keys : List String
  deriving DecidableEq, Repr

def Tally.start : Tally := ⟨0, []⟩

/-- The disk, the terminal, the text written to the output, and the tally of the present folder. -/
structure World where
  disk : Disk
  terminal : Terminal
  output : String
  tally : Tally

def World.start (disk : Disk) (input : List String) : World := ⟨disk, .start input, "", .start⟩

/-- A part of a command. What was done before an error stays done. -/
abbrev Procedure (α : Type) := ExceptT Error (StateM World) α

namespace Procedure

/-- A conversation as part of a command; it leaves all but the terminal alone. -/
def talk {α : Type} (dialogue : Dialogue α) : Procedure α := fun world =>
  match dialogue.run.run world.terminal with
  | (.ok a, terminal) => (.ok a, { world with terminal := terminal })
  | (.error _, terminal) => (.error .endOfInput, { world with terminal := terminal })

def display (events : List Event) : Procedure Unit := talk (Dialogue.display events)

def lookUp {α : Type} (question : Disk → Except Error α) : Procedure α := do
  match question (← get).disk with
  | .ok a => return a
  | .error error => throw error

/-- A change of the disk as part of a command; it leaves all but the disk alone. -/
def change {α : Type} (edit : Edit Error α) : Procedure α := fun world =>
  let (result, disk) := edit.run.run world.disk
  (result, { world with disk := disk })

def write (text : String) : Procedure Unit :=
  modify fun world => { world with output := world.output ++ text }

/-- Does something; an error that users are told about is shown and gives `none`. -/
def attempt {α : Type} (action : Procedure α) : Procedure (Option α) :=
  tryCatch (some <$> action) fun error =>
    if error.isReported then do
      let message := error.message
      display [line s!"[red]Error:[/red] {message}"]
      return none
    else throw error

end Procedure

end EnvFill.Command
