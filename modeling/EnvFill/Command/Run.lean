import EnvFill.Command.FillFolder

/-!
The command that fills in the settings of a project: of one folder with settings files, or of all of
them. A command gives its exit code.
-/

namespace EnvFill.Command

open Procedure Storage Fill Project Screen

/-- The directory that a command works in; without one it ends with an error. -/
def chooseRoot (target : String) : Procedure (Option Location) := do
  let root ← lookUp fun disk => followed (disk.resolve (.ofString target))
  if !(← lookUp fun disk => followed (disk.exists? (.ofRoot root))) then
    display [line s!"[red]Error:[/red] Path does not exist: {target}"]
    return none
  if !(← lookUp fun disk => followed (disk.isDir (.ofRoot root))) then
    display [line s!"[red]Error:[/red] Path is not a directory: {target}"]
    return none
  return some root

/-- Fills in folders one after another, each with its number out of `count`. Gives how many settings
were saved in all. -/
def fillAll (config : Config) (root : Location) (count : Nat) : List (Folder × Nat) → Procedure Nat
  | [] => return 0
  | (folder, index) :: rest => do
    let number := index + 1
    let label := s!"{folder.label}  [{number}/{count}]"
    let saved ← fillFolder config ⟨folder.location, some label, root⟩
    let later ← fillAll config root count rest
    return saved + later

def fillChosen (config : Config) (root : Location) (folders : List Folder) : Procedure Unit := do
  let ending := plural folders.length
  display [line s!"[green]✔ Found env files in {folders.length} folder{ending}[/green]"]
  match ← talk (chooseFolder folders) with
  | none => let _ ← fillFolder config ⟨root, none, root⟩
  | some (.one folder) =>
    let label := if folder.isRoot then none else some folder.path
    let _ ← fillFolder config ⟨folder.location, label, root⟩
  | some .all =>
    let total ← fillAll config root folders.length folders.zipIdx
    if 0 < total then
      let saved := s!"{total} variable{plural total} saved"
      display [line s!"[green]✔ Total: {saved} across {folders.length} folders[/green]"]

def run (config : Config) (target : String) : Procedure Nat := do
  match ← chooseRoot target with
  | none => return 1
  | some root =>
    display banner
    match ← lookUp fun disk => discover disk (.ofRoot root) config.maxDepth with
    | [] =>
      display [line "[yellow]⚠ No env files found in any folder[/yellow]"]
      let _ ← fillFolder config ⟨root, none, root⟩
    | folders => fillChosen config root folders
    return 0

def showVersion : Procedure Nat := do
  display versionLine
  return 0

end EnvFill.Command
