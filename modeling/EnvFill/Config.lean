import EnvFill.OrderedMap
import EnvFill.Text.Numeral
import EnvFill.Text.Lines
import EnvFill.Text.Quoted

/-!
How the program is set up: options of the command line come first, then variables of the
environment, then what is usual.
-/

namespace EnvFill

open Text

structure Config where
  deep : Bool := false
  maxDepth : Int := 8
  scanMaxDepth : Int := 32
  extraIgnore : List String := []
  exampleFile : String := ".env.example"
  syncExample : Bool := true
  envFile : Option String := none
  deriving DecidableEq, Repr

structure Options where
  target : String := "."
  deep : Bool := false
  file : Option String := none
  maxDepth : Option Int := none
  ignore : List String := []
  syncExample : Bool := true
  deriving DecidableEq, Repr

def variableStart : String := "ENVSETTER_"

def ownVariable? (environ : OrderedMap String String) (name : String) : Option String :=
  environ.get? (variableStart ++ name)

/-- A number from the environment, or else the usual one, with a warning if it cannot be read. -/
def depthFrom (environ : OrderedMap String String) (name : String) (usual : Int) :
    Int × List String :=
  match ownVariable? environ name with
  | none => (usual, [])
  | some text =>
    match Numeral.parse? text.toList with
    | some depth => (depth, [])
    | none => (usual, ["Ignoring invalid " ++ variableStart ++ name ++ "=" ++ quoted text])

/-- The items between commas, without blanks around them; blank items do not count. -/
def commaItems (text : String) : List String :=
  (((splitAtEach (· == ',') text.toList).map strip).filter (!·.isEmpty)).map String.ofList

namespace Config

def ofEnvironment (environ : OrderedMap String String) : Config × List String :=
  let usual : Config := {}
  let (maxDepth, warnings) := depthFrom environ "MAX_DEPTH" usual.maxDepth
  let (scanMaxDepth, scanWarnings) := depthFrom environ "SCAN_MAX_DEPTH" usual.scanMaxDepth
  let template := (ownVariable? environ "EXAMPLE_FILE").getD ""
  let config :=
    { usual with
      maxDepth := maxDepth
      scanMaxDepth := scanMaxDepth
      exampleFile := if template.isEmpty then usual.exampleFile else template
      extraIgnore := commaItems ((ownVariable? environ "IGNORE").getD "") }
  (config, warnings ++ scanWarnings)

def build (environ : OrderedMap String String) (options : Options) : Config × List String :=
  let (config, warnings) := ofEnvironment environ
  let config :=
    { config with
      deep := options.deep
      envFile := options.file
      syncExample := options.syncExample
      maxDepth := options.maxDepth.getD config.maxDepth
      extraIgnore := config.extraIgnore ++ options.ignore }
  (config, warnings)

end Config

end EnvFill
