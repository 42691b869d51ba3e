import EnvFill.Screen.Cards
import EnvFill.Screen.Dialogue

/-!
The questions of the program: which folder, which file, which variables, and the value of each.
-/

namespace EnvFill.Screen

open Dialogue EnvFile Fill Project Text

inductive FolderChoice where
  | one (folder : Folder)
  | all
  deriving DecidableEq, Repr

def numbers (count : Nat) : List String := (List.range count).map fun index => Nat.repr (index + 1)

def chooseFolder (folders : List Folder) : Dialogue (Option FolderChoice) :=
  match folders with
  | [] => return none
  | [folder] => return some (.one folder)
  | _ => do
    display (folderTable folders)
    let numbers := numbers folders.length
    let answer ← Prompt.ask
      { text := "Select folder (number, or 'all' for every folder)", choices := numbers ++ ["all"],
        usual := "1" }
    return if answer = "all" then some .all else folders[numbers.idxOf answer]?.map .one

def choosePath : Dialogue String :=
  untilAnswered do
    let answer ← Prompt.ask { text := "Enter path", usual := ".env" }
    if answer.isEmpty then
      display [line "[red]Path cannot be empty[/red]"]
      return none
    return some answer

/-- Asks for the file to write: one of those that are there, a usual one, or any path. -/
def chooseFile (existing : List String) : Dialogue String := do
  let new := Name.writableFiles.filter fun name => !existing.contains name
  let files := existing ++ new
  display (targetFiles existing new)
  let numbers := numbers (files.length + 1)
  let answer ← Prompt.ask { text := "Write to", choices := numbers, usual := "1" }
  match files[numbers.idxOf answer]? with
  | some file => return file
  | none => choosePath

inductive Mode where
  | fill (scope : Scope)
  | paste
  | exit
  deriving DecidableEq, Repr

def Mode.word : Mode → String
  | .fill .missing => "missing"
  | .fill .all => "all"
  | .paste => "bulk"
  | .exit => "exit"

def Mode.available (stats : Stats) : List Mode :=
  (if 0 < stats.missing then [.fill .missing] else []) ++
    (if 0 < stats.alreadySet then [.fill .all] else []) ++ [.paste, .exit]

def Mode.offer (stats : Stats) : Mode → Event
  | .fill .missing =>
    line s!"  [cyan]missing[/cyan]  Fill missing only [dim]({stats.missing})[/dim]"
  | .fill .all =>
    let label := if 0 < stats.missing then "Edit all variables" else "Edit existing"
    line s!"  [magenta]all[/magenta]      {label} [dim]({stats.total})[/dim]"
  | .paste => line "  [green]bulk[/green]     Bulk paste [dim](paste whole .env content)[/dim]"
  | .exit => line "  [red]exit[/red]     Exit"

def chooseMode (stats : Stats) : Dialogue Mode := do
  let modes := Mode.available stats
  display (modes.map (Mode.offer stats))
  let words := modes.map Mode.word
  let answer ← Prompt.ask { text := "Select mode", choices := words, usual := words.headD "" }
  return (modes[words.idxOf answer]?).getD .exit

def detectedLine (lines : List String) : Event :=
  let count := (Entries.ofPaste ("\n".intercalate lines)).size
  let ending := pluralUnlessOne count
  line s!"[dim]     ✔ {count} var{ending} detected[/dim]"

/-- Reads pasted lines up to a blank one or the end of the input, at most so many. Blank lines
before the first do not count. -/
def readPasted : Nat → List String → Dialogue (List String)
  | 0, lines => return lines
  | rounds + 1, lines => do
    display [.asked "  [cyan]▸[/cyan] " false true]
    match (← get).input with
    | [] => return lines
    | answer :: rest =>
      modify fun terminal => { terminal with input := rest }
      if isAllBlank answer.toList then
        if lines.isEmpty then readPasted rounds lines else return lines
      else
        display [detectedLine (lines ++ [answer])]
        readPasted rounds (lines ++ [answer])

def readPaste : Dialogue String := do
  display
    [line "[bold]◆ Bulk Paste[/bold]",
      line "[dim]  Paste your env content below, then press Enter on an empty line.[/dim]"]
  let lines ← readPasted ((← get).input.length + 1) []
  return "\n".intercalate lines

def secretKeys (values : Entries) : List String := values.keys.filter Name.isSecret

def confirmPaste : Dialogue (Option Entries) := do
  let text ← readPaste
  if isAllBlank text.toList then
    display [line "[dim]  No content pasted. Skipping.[/dim]"]
    return none
  let values := Entries.ofPaste text
  if values.isEmpty then
    display
      [line "[yellow]⚠ No valid KEY=VALUE pairs found.[/yellow]",
        line "[dim]  Expected format: KEY=value or KEY=\"value\"[/dim]"]
    return none
  display (pastePreview values (secretKeys values))
  let ending := plural values.size
  if ← confirm s!"Write {values.size} variable{ending} to env file?" true then
    return some values
  display [line "[dim]  Cancelled. Nothing was written.[/dim]"]
  return none

def startSession : Dialogue Unit := do
  modify fun terminal => { terminal with heading := none }
  display commandPanel

def showHeading (key : String) : Dialogue Unit := do
  match Name.category? key with
  | none => return
  | some category =>
    if (← get).heading ≠ some category then
      display (categoryHeading category)
      modify fun terminal => { terminal with heading := some category }

/-- Carries out a command where a value was asked for. Some are confirmed first, and where a command
does not apply the question is asked again. -/
def obey (question : Question) : Command → Dialogue (Option Response)
  | .stop => do
    if ← confirm "End session? All saved values are kept." true then
      display [line "[yellow]⚠ Session ended early.[/yellow]"]
      return some .stop
    return none
  | .skipAll => do
    let count := question.total - question.index
    let ending := plural count
    if ← confirm s!"Skip all {count} remaining variable{ending}?" false then
      return some .skipAll
    return none
  | .back => do
    if question.index = 0 then
      display [line "[dim]    → Already at first variable[/dim]"]
      return none
    modify fun terminal => { terminal with heading := none }
    display [line "[dim]    → Going back...[/dim]"]
    return some .back
  | .paste => do return some (.paste (← readPaste))
  | .skip => do
    display [line "  [dim]→ Skipped[/dim]"]
    return some .skip
  | .clear => return some .clear

/-- The question for a value; an empty line keeps the present one. -/
def valuePrompt (question : Question) : Prompt :=
  let secret := Name.isSecret question.key
  { text := if secret then "  🔒 Secret" else "  ▸ Value", usual := question.current,
    showUsual := false, hidden := secret }

/-- Asks once for a value. Help and the list of what remains are shown, and then the question is
asked again. -/
def askValueOnce (question : Question) : Dialogue (Option Response) := do
  let answer ← (valuePrompt question).ask
  let word := commandWord answer
  if word = "help" || word = "?" then
    display commandPanel
    return none
  if word = "list" then
    display (remainingList question.remaining)
    return none
  match Command.parse? answer with
  | none => return some (.value answer)
  | some command => obey question command

def askValue (question : Question) : Dialogue Response := do
  showHeading question.key
  display (variableCard question)
  untilAnswered (askValueOnce question)

end EnvFill.Screen
