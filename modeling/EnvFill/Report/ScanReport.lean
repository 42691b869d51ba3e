import EnvFill.Fill.Coverage
import EnvFill.Screen.Cards

/-!
The report on a folder: its variables, the file that they are compared with, and which of them are
set.
-/

namespace EnvFill.Report

open EnvFile Fill Screen

structure ScanReport where
  folder : String
  target : String
  deep : Bool
  found : Found
  existing : Entries

namespace ScanReport

def stats (report : ScanReport) : Stats := reconcile report.found report.existing

def isSet (report : ScanReport) (name : String) : Bool := Fill.isSet report.existing name

def row (report : ScanReport) (name : String) (files : List String) : List String :=
  [name, if report.isSet name then "[green]set[/green]" else "[red]missing[/red]",
    escape (", ".intercalate files)]

def table (report : ScanReport) : Content :=
  .table
    [⟨"Variable", .left, "bold", none⟩, ⟨"Status", .left, "", some 10⟩,
      ⟨"Found in", .left, "dim", none⟩]
    (report.found.toList.map fun (name, files) => report.row name files)

def display (report : ScanReport) : List Event :=
  let mode := if report.deep then "deep" else "env files"
  let about := s!"[dim]({mode}, target {report.target})[/dim]"
  [emptyLine, line s!"[bold]◆ {report.folder}[/bold] {about}"] ++
    if report.found.isEmpty then noVariables report.deep
    else .shown report.table :: scanResult report.stats

end ScanReport

end EnvFill.Report
