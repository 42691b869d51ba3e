import EnvFill.EnvFile.Entries
import EnvFill.Fill.Found
import EnvFill.Number.Binary64

/-!
How far the settings cover the variables found: a variable is set when its value is more than
blanks.
-/

namespace EnvFill.Fill

open EnvFile

structure Stats where
  total : Int
  alreadySet : Int
  missing : Int
  deriving DecidableEq, Repr

def coverage (alreadySet total : Int) : Int :=
  if total ≤ 0 then 0 else Number.percent alreadySet total

def Stats.coverage (stats : Stats) : Int := Fill.coverage stats.alreadySet stats.total

def hasCoverage (alreadySet total : Int) : Bool := total ≤ 0 || Number.hasPercent alreadySet total

/-- Whether the settings give `name` a value that is more than blanks. -/
def isSet (existing : Entries) (name : String) : Bool :=
  (existing.get? name).any fun value => !Text.isAllBlank value.toList

def reconcile (found : Found) (existing : Entries) : Stats :=
  let total : Int := found.names.length
  let set : Int := (found.names.filter (isSet existing)).length
  ⟨total, set, total - set⟩

def missing (found : Found) (existing : Entries) : List String :=
  found.names.filter fun name => !isSet existing name

inductive Scope where
  | missing
  | all
  deriving DecidableEq, Repr

def Scope.names (scope : Scope) (found : Found) (existing : Entries) : List String :=
  match scope with
  | .missing => Fill.missing found existing
  | .all => found.names

end EnvFill.Fill
