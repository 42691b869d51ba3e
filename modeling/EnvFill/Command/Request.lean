import EnvFill.Command.Scan

/-!
The command line: what is to be done, with which options.
-/

namespace EnvFill.Command

inductive Request where
  | run (options : Options)
  | scan (options : Options) (format : Format)
  | version
  deriving DecidableEq, Repr

structure Arguments where
  options : Options := {}
  format : Format := .screen
  targets : List String := []
  deriving DecidableEq, Repr

def Arguments.addIgnore (args : Arguments) (line : String) : Arguments :=
  { args with options.ignore := args.options.ignore ++ [line] }

def Arguments.read (args : Arguments) : List String → Except String Arguments
  | [] => .ok args
  | "--deep" :: rest => { args with options.deep := true }.read rest
  | "-d" :: rest => { args with options.deep := true }.read rest
  | "--no-sync" :: rest => { args with options.syncExample := false }.read rest
  -- Debug lines are not part of what a command does.
  | "--verbose" :: rest => args.read rest
  | "-v" :: rest => args.read rest
  | "--file" :: file :: rest => { args with options.file := some file }.read rest
  | "-f" :: file :: rest => { args with options.file := some file }.read rest
  | "--ignore" :: line :: rest => (args.addIgnore line).read rest
  | "-i" :: line :: rest => (args.addIgnore line).read rest
  | "--max-depth" :: depth :: rest =>
    match Text.Numeral.parse? depth.toList with
    | some depth => { args with options.maxDepth := some depth }.read rest
    | none => .error ("not a number: " ++ depth)
  | "--format" :: format :: rest =>
    { args with format := if format = "json" then .json else .screen }.read rest
  | arg :: rest =>
    if arg.toList.head? = some '-' then .error ("unknown option: " ++ arg)
    else { args with targets := args.targets ++ [arg] }.read rest

def Arguments.complete (args : Arguments) : Except String Options :=
  match args.targets with
  | [] => .ok args.options
  | [target] => .ok { args.options with target := target }
  | _ => .error "more than one project"

def Request.parse : List String → Except String Request
  | "run" :: rest => do return .run (← (← Arguments.read {} rest).complete)
  | "scan" :: rest => do
    let args ← Arguments.read {} rest
    return .scan (← args.complete) args.format
  | ["version"] => .ok .version
  | _ => .error "run, scan or version expected"

def Request.options : Request → Options
  | .run options => options
  | .scan options _ => options
  | .version => {}

def Request.action (config : Config) : Request → Procedure Nat
  | .run options => Command.run config options.target
  | .scan options format => scanProject config options.target format
  | .version => showVersion

end EnvFill.Command
