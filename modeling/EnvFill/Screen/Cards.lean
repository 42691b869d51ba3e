import EnvFill.EnvFile.Value
import EnvFill.Fill.Session
import EnvFill.Name.File
import EnvFill.Name.Hint
import EnvFill.Project.Discovery
import EnvFill.Screen.Event
import EnvFill.Screen.Markup

/-!
The texts of a session: what is shown about folders, files, variables and results.
-/

namespace EnvFill.Screen

open EnvFile Fill Project

def version : String := "1.0.0"

def banner : List Event :=
  [.shown (.panel
    (.pieces [("ENV SETTER\n", "bold cyan"),
      ("Scan > Fill > Save  |  Interactive .env manager\n", "dim"), ("v" ++ version, "dim")])
    none "cyan")]

def versionLine : List Event := [line s!"[bold]envsetter[/bold] v{version}"]

def folderTable (folders : List Folder) : List Event :=
  let rows := folders.zipIdx.map fun (folder, index) =>
    [Nat.repr (index + 1), folder.label, ", ".intercalate folder.files]
  [line "[bold]◆ Project Folders[/bold]",
    .shown (.table
      [⟨"#", .right, "dim", none⟩, ⟨"Folder", .left, "bold", none⟩,
        ⟨"Env files", .left, "dim", none⟩]
      rows),
    emptyLine]

def existingFileLine (name : String) (index : Nat) : Event :=
  let number := padded 2 (index + 1)
  let tag := if Name.isTemplate name then "template · exists" else "exists"
  line s!"  [dim]{number}.[/dim] [green]✔[/green] [bold]{name}[/bold] [dim]({tag})[/dim]"

def newFileLine (name : String) (index : Nat) : Event :=
  let number := padded 2 (index + 1)
  line s!"  [dim]{number}.[/dim] [dim]+ {name} (new)[/dim]"

/-- The files to choose from, numbered: those that are there, those that are not, and any other. -/
def targetFiles (existing new : List String) : List Event :=
  let number := padded 2 (existing.length + new.length + 1)
  [line "[bold]◆ Target File[/bold]"] ++
    existing.zipIdx.map (fun (name, index) => existingFileLine name index) ++
    new.zipIdx.map (fun (name, index) => newFileLine name (existing.length + index)) ++
    [line s!"  [dim]{number}.[/dim] [magenta]…[/magenta] Custom path", emptyLine]

def scanResult (stats : Stats) : List Event :=
  let percent := stats.coverage
  let color := coverageColor percent
  let total := padded 4 stats.total
  let alreadySet := padded 4 stats.alreadySet
  let missing := padded 4 stats.missing
  let bar := progressBar stats.alreadySet stats.total
  [panel
    [s!"[yellow]●[/yellow]  Variables found  [bold]{total}[/bold]",
      s!"[green]●[/green]  Already set      [bold green]{alreadySet}[/bold green]",
      s!"[red]●[/red]  Missing          [bold red]{missing}[/bold red]",
      "",
      s!"Coverage  {bar}  [bold {color}]{percent}%[/bold {color}]"]
    (some "[bold]Scan Results[/bold]") "cyan"]

/-- Nothing was found; a scan of settings files alone may be too narrow. -/
def noVariables (deep : Bool) : List Event :=
  line "[yellow]⚠ No environment variables found.[/yellow]" ::
    if deep then [] else [line "[dim]  Try: envsetter run --deep[/dim]"]

def commandHelp : List (String × String) :=
  [("skip", "Skip this variable"), ("back", "Go to previous variable"),
    ("clear", "Set value to empty string"), ("list", "Show all remaining variables"),
    ("paste", "Bulk paste env content and finish"), ("skipall", "Skip all remaining variables"),
    ("exit", "Stop and keep all saved values")]

def commandPanel : List Event :=
  let rows := commandHelp.map fun (name, text) =>
    [s!"[bold cyan]{name}[/bold cyan]", s!"[dim]{text}[/dim]"]
  let further :=
    [["[bold]Enter[/bold]", "[dim]Keep the current value[/dim]"],
      ["[bold]?[/bold]", "[dim]Show this panel[/dim]"]]
  [.shown (.panel (.table [] (rows ++ further)) (some "[bold]Commands[/bold]") "dim")]

def categoryHeading (category : String) : List Event :=
  [emptyLine, line s!"[reverse magenta] {category} [/reverse magenta]"]

def maxFilesShown : Nat := 3

/-- The files that mention a variable; of many, the first ones and how many more. -/
def filesLine (files : List String) : String :=
  let shown := escape (", ".intercalate (files.take maxFilesShown))
  let more := files.length - maxFilesShown
  let extra := if more = 0 then "" else s!" +{more}"
  s!"[dim]Found in:[/dim] {shown}[dim]{extra}[/dim]"

def hintLine (hint : Name.Hint) : String :=
  let color := if hint.kind = "Secret" then "yellow" else "magenta"
  s!"[{color}]{hint.kind}[/{color}] [dim]{hint.text}[/dim]"

def masked (value : String) : String := String.ofList (Value.mask value.toList)

def currentLine (current : String) : String :=
  if current.isEmpty then "[yellow]●[/yellow] [dim]Not set[/dim]"
  else
    let value := escape (masked current)
    s!"[green]●[/green] [dim]Current: {value}[/dim]"

def variableCard (question : Question) : List Event :=
  let percent := Number.percent question.index question.total
  let place := s!"[dim][{question.index + 1}/{question.total}]  {percent}%[/dim]"
  let lines :=
    [s!"[cyan]◆[/cyan] [bold]{question.key}[/bold]  {place}",
      progressBar question.index question.total 30] ++
    ((Name.hint? question.key).map hintLine).toList ++
    (if question.files.isEmpty then [] else [filesLine question.files]) ++
    [currentLine question.current]
  [emptyLine, panel lines none "dim"]

def remainingLine (name : String) (index : Nat) : Event :=
  let number := padded 2 (index + 1)
  let label :=
    match Name.category? name with
    | some category =>
      let shown := escape s!"[{category}]"
      s!" [magenta]{shown}[/magenta]"
    | none => ""
  line s!"      [dim]{number}.[/dim] {name}{label}"

def remainingList (remaining : List String) : List Event :=
  if remaining.isEmpty then [line "[dim]    This is the last variable.[/dim]"]
  else
    line s!"[dim]    Remaining ({remaining.length}):[/dim]" ::
      remaining.zipIdx.map fun (name, index) => remainingLine name index

def savedLine (unchanged : Bool) (saved : Int) (stats : Stats) : List Event :=
  let status := if unchanged then "[dim]✔ Unchanged[/dim]" else "[green]✔ Saved[/green]"
  let percent := stats.coverage
  [line s!"  {status}  [dim]│  {saved} saved · {stats.missing} missing · {percent}% coverage[/dim]"]

/-- A pasted value as it is previewed: secrets are hidden and long values cut. -/
def previewValue (isSecret : Bool) (value : String) : String :=
  if isSecret then
    let shown := masked value
    s!"{shown}  \\[secret]"
  else if value.isEmpty then "(empty)"
  else if value.length ≤ 40 then escape value
  else escape (String.ofList (value.toList.take 37) ++ "...")

def previewLine (secrets : List String) (key value : String) : Event :=
  let shown := previewValue (secrets.contains key) value
  line s!"    [green]✔[/green] {key} [dim]=[/dim] [dim]{shown}[/dim]"

def pastePreview (values : Entries) (secrets : List String) : List Event :=
  let ending := pluralUnlessOne values.size
  line s!"[bold]◆ Found {values.size} variable{ending}[/bold]" ::
    values.toList.map fun (key, value) => previewLine secrets key value

def notIgnoredWarning (file : String) : List Event :=
  [emptyLine, line s!"[yellow]⚠ [bold]{file}[/bold] is [bold]NOT[/bold] in .gitignore![/yellow]",
    line s!"[dim]    Run: echo \"{file}\" >> .gitignore[/dim]"]

def syncedLine (count : Int) (file : String) : List Event :=
  if 0 < count then
    let noun := if 1 < count then "keys" else "key"
    [line s!"[green]✔ Synced {count} new {noun} to {file}[/green]"]
  else []

def summary (saved : Int) (file : String) : List Event :=
  if saved = 0 then
    [emptyLine,
      panel
        ["[bold yellow]⚠ No changes made[/bold yellow]",
          "[dim]All variables were skipped or already set.[/dim]"]
        none "yellow"]
  else
    let noun := if 1 < saved then "variables" else "variable"
    [emptyLine,
      panel
        ["[bold green]✔ Complete[/bold green]", "",
          s!"Saved     [bold]{saved}[/bold] [dim]{noun}[/dim]",
          s!"Target    [bold cyan]{file}[/bold cyan]", "",
          s!"[dim]Tip: make sure {file} is in .gitignore[/dim]"]
        none "green"]

end EnvFill.Screen
