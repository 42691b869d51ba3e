import EnvFill.Report.Json
import EnvFill.Report.ScanReport

/-!
Reports as one JSON document. It says of each variable whether it is set, and never its value.
-/

namespace EnvFill.Report

open Fill

def variableJson (report : ScanReport) (name : String) (files : List String) : Json :=
  .object
    [("name", .string name), ("set", .bool (report.isSet name)),
      ("files", .array (files.map .string))]

def statsJson (stats : Stats) : Json :=
  .object
    [("total", .number stats.total), ("already_set", .number stats.alreadySet),
      ("missing", .number stats.missing), ("coverage", .number stats.coverage)]

def reportJson (report : ScanReport) : Json :=
  .object
    [("folder", .string report.folder), ("target", .string report.target),
      ("mode", .string (if report.deep then "deep" else "env-files")),
      ("stats", statsJson report.stats),
      ("variables", .array (report.found.toList.map fun (name, files) =>
        variableJson report name files))]

def sumOf (count : Stats → Int) (reports : List ScanReport) : Int :=
  reports.foldr (fun report total => count report.stats + total) 0

def documentJson (reports : List ScanReport) : Json :=
  .object
    [("folders", .array (reports.map reportJson)),
      ("summary", .object
        [("total", .number (sumOf Stats.total reports)),
          ("already_set", .number (sumOf Stats.alreadySet reports)),
          ("missing", .number (sumOf Stats.missing reports))])]

def documentText (reports : List ScanReport) : String := (documentJson reports).render ++ "\n"

end EnvFill.Report
