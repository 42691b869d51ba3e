import EnvFill.Command.World
import EnvFill.Config
import EnvFill.Project.Ignored
import EnvFill.Project.Scan
import EnvFill.Project.Settings
import EnvFill.Screen.Questions

/-!
Filling in one folder: its variables are found and compared with a settings file, their values are
asked for, and every answer is saved before the next question. After saves the ignore file is looked
at and the template gets the new keys.
-/

namespace EnvFill.Command

open Procedure Storage EnvFile Fill Project Screen

structure FolderTask where
  folder : Location
  label : Option String
  /-- The project whose ignore file counts. -/
  project : Location
  deriving DecidableEq, Repr

def FolderTask.path (task : FolderTask) (text : String) : Pathname :=
  (Pathname.ofRoot task.folder).join (.ofString text)

def announce (label : Option String) : Procedure Unit :=
  match label with
  | none => return
  | some label => do
    let rule := repeated 50 '─'
    display
      [emptyLine,
        line s!"[cyan]›[/cyan] [bold]Working in:[/bold] [bold cyan]{label}[/bold cyan]",
        line s!"[dim]{rule}[/dim]"]

def workingText (deep : Bool) : String :=
  if deep then "Deep scanning for environment variables"
  else "Scanning env files for environment variables"

def addNewKeys (keys added : List String) : List String :=
  added.foldl (fun keys key => if keys.contains key then keys else keys ++ [key]) keys

def Tally.add (tally : Tally) (count : Nat) (keys : List String) : Tally :=
  ⟨tally.saved + count, addNewKeys tally.keys keys⟩

/-- Saves settings in a file, shows what came of it, and gives the settings there are then. -/
def save (file : Location) (found : Found) (existing writes : Entries) : Procedure Entries := do
  let unchanged := writes.toList.all fun pair => existing.get? pair.1 == some pair.2
  let count ← change (writeSettings (.ofRoot file) writes)
  modify fun world => { world with tally := world.tally.add count writes.keys }
  let existing := existing.merge writes
  display (savedLine unchanged (← get).tally.saved (reconcile found existing))
  return existing

/-- Asks for the values of variables and saves them. Every question takes a line, so there are no
more of them than lines and one that finds the end. -/
def askAll (file : Location) (found : Found) (existing : Entries) (names : List String) :
    Procedure Unit := do
  talk startSession
  let rounds := (← get).terminal.input.length + 1
  let _ ← Session.run names found (fun question => talk (askValue question)) (save file found)
    rounds (.start existing)

def askPaste (file : Location) (found : Found) (existing : Entries) : Procedure Unit := do
  match ← talk confirmPaste with
  | none => return
  | some values => let _ ← save file found existing values

def checkIgnored (task : FolderTask) (target : Location) (file : String) : Procedure Unit := do
  let ignored ← lookUp fun disk => isIgnored? disk (.ofRoot task.project) (.ofRoot target)
  if ignored = some false then display (notIgnoredWarning file)

/-- Adds the saved keys to the template, unless it is the file that was written. -/
def syncKeys (config : Config) (task : FolderTask) (target : Location) : Procedure Unit := do
  let template ← lookUp fun disk => followed (disk.resolve (task.path config.exampleFile))
  if config.syncExample && template ≠ target then
    let keys := (← get).tally.keys
    let _ ← attempt do
      let count ← change (syncTemplate (.ofRoot template) keys)
      display (syncedLine count config.exampleFile)

/-- What follows a session: warnings, the template and a summary. Gives how many settings were
saved. -/
def finish (config : Config) (task : FolderTask) (target : Location) (file : String) :
    Procedure Nat := do
  if !(← get).tally.keys.isEmpty then
    checkIgnored task target file
    syncKeys config task target
  let saved := (← get).tally.saved
  display (summary saved file)
  return saved

/-- The file that is written: the one from the settings of the program, or else the user's choice.
-/
def chooseTarget (config : Config) (task : FolderTask) : Procedure String :=
  match config.envFile.filter (!·.isEmpty) with
  | some file => return file
  | none => do
    let existing ← lookUp fun disk => settingsFiles disk (.ofRoot task.folder)
    talk (chooseFile existing)

/-- Fills in the variables that were found in a folder. Gives how many settings were saved. -/
def fillFound (config : Config) (task : FolderTask) (found : Found) : Procedure Nat := do
  let file ← chooseTarget config task
  let target ← lookUp fun disk => followed (disk.resolve (task.path file))
  let existing ← lookUp fun disk => readSettings disk (.ofRoot target)
  let stats := reconcile found existing
  display (scanResult stats)
  modify fun world => { world with tally := .start }
  match ← talk (chooseMode stats) with
  | .exit =>
    display [line "[dim]  Skipped this folder.[/dim]"]
    return 0
  | .paste =>
    let _ ← attempt (askPaste target found existing)
    finish config task target file
  | .fill scope =>
    match scope.names found existing with
    | [] =>
      display [line "[green]✔ All environment variables are already set![/green]"]
      return 0
    | names =>
      let _ ← attempt (askAll target found existing names)
      finish config task target file

def fillFolder (config : Config) (task : FolderTask) : Procedure Nat := do
  announce task.label
  display [.working (workingText config.deep)]
  let scanned ← attempt <| lookUp fun disk =>
    scan disk (.ofRoot task.folder) config.deep config.extraIgnore config.scanMaxDepth
  match scanned with
  | none => return 0
  | some found =>
    if found.isEmpty then
      display (noVariables config.deep)
      return 0
    fillFound config task found

end EnvFill.Command
