import EnvFill.Command.Run
import EnvFill.Report.Document

/-!
The command that reports which variables of a project are set, without asking anything. Its exit
code is one if a variable is missing.
-/

namespace EnvFill.Command

open Procedure Storage Fill Project Report

inductive Format where
  | screen
  | json
  deriving DecidableEq, Repr

def reportOn (config : Config) (disk : Disk) (folder : Folder) : Except Error ScanReport := do
  let place := Pathname.ofRoot folder.location
  let found ← scan disk place config.deep config.extraIgnore config.scanMaxDepth
  let target ←
    match config.envFile.filter (!·.isEmpty) with
    | some file => pure file
    | none => defaultTarget disk place
  let existing ← readSettings disk (place.join (.ofString target))
  return ⟨folder.path, target, config.deep, found, existing⟩

/-- The folders that are reported on: those with settings files, or the project itself. -/
def reportedFolders (config : Config) (root : Location) (disk : Disk) :
    Except Error (List Folder) := do
  match ← discover disk (.ofRoot root) config.maxDepth with
  | [] => return [⟨".", root, []⟩]
  | folders => return folders

def handOut (format : Format) (reports : List ScanReport) : Procedure Unit :=
  match format with
  | .json => write (documentText reports)
  | .screen => display (reports.flatMap ScanReport.display)

def scanProject (config : Config) (target : String) (format : Format) : Procedure Nat := do
  match ← chooseRoot target with
  | none => return 1
  | some root =>
    let folders ← lookUp (reportedFolders config root)
    match ← attempt (lookUp fun disk => folders.mapM (reportOn config disk)) with
    | none => return 1
    | some reports =>
      handOut format reports
      return if reports.any fun report => 0 < report.stats.missing then 1 else 0

end EnvFill.Command
