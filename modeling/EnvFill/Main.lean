import EnvFill.Command.Request
import EnvFill.Screen.Plain

/-!
The program. A command is a function of the files below a project and of the lines that are typed,
so it is carried out anew with every line, and what has come to the screen and to the disk since is
passed on.
-/

namespace EnvFill.Main

open Command Storage Screen

/-- The part of a disk below a path. A link is kept with the place it leads to. -/
partial def load (path : String) : IO Node := do
  let place := (← IO.currentDir) / path
  match (← place.symlinkMetadata).type with
  | .dir =>
    let mut entries := []
    for entry in ← place.readDir do
      entries := (entry.fileName, ← load (path ++ "/" ++ entry.fileName)) :: entries
    return .dir entries
  | .symlink =>
    try
      return .link (← IO.FS.realPath path).toString
    catch _ => return .link place.toString
  | _ => return .file (← IO.FS.readBinFile path).toList

def files (disk : Disk) : List (Location × List UInt8) :=
  (walkFrom (fun _ => true) [] disk.top).flatMap fun visit =>
    visit.entries.filterMap fun (name, node) =>
      match node with
      | .file bytes => some (visit.path ++ [name], bytes)
      | _ => none

def store (before after : Disk) : IO Unit := do
  for (place, bytes) in files after do
    if (before.top.get? place).bind Node.bytes? != some bytes then
      let path := Error.placeText place
      let folder := Error.placeText place.dropLast
      IO.FS.createDirAll folder
      let draft := folder ++ "/." ++ place.getLastD "" ++ ".tmp"
      IO.FS.writeBinFile draft ⟨bytes.toArray⟩
      IO.FS.rename draft path

def isWaiting (events : List Event) (lines : List String) : Bool :=
  lines.length < events.countP Event.isQuestion

/-- Carries the command out with the lines typed so far, passes on what is new, and goes on with
another line if one is asked for. `ended` says that there will be none. -/
partial def converse (action : Procedure Nat) (start : Disk) (ended : Bool) (shown : Nat)
    (stored : Disk) (lines : List String) : IO UInt32 := do
  let (result, world) := action.run.run (.start start lines)
  let waiting := !ended && isWaiting world.terminal.events lines
  let events :=
    if waiting then throughQuestion lines.length world.terminal.events else world.terminal.events
  let output ← IO.getStdout
  for event in events.drop shown do
    output.putStr event.plain
  output.flush
  let atQuestion := match result with
    | .error .endOfInput => true
    | _ => false
  let disk := if waiting && !atQuestion then stored else world.disk
  store stored disk
  if waiting then
    let line ← (← IO.getStdin).getLine
    if line.isEmpty then converse action start true events.length disk lines
    else
      let typed := String.ofList (Text.dropEndWhile (fun c => c == '\n' || c == '\r') line.toList)
      converse action start false events.length disk (lines ++ [typed])
  else
    output.putStr world.output
    match result with
    | .ok code => return code.toUInt32
    | .error error =>
      IO.eprintln error.message
      return 1

def environment : IO (OrderedMap String String) := do
  let names := ["MAX_DEPTH", "SCAN_MAX_DEPTH", "EXAMPLE_FILE", "IGNORE"].map (variableStart ++ ·)
  let values ← names.mapM fun name => do return (← IO.getEnv name).map (name, ·)
  return .ofList (values.filterMap id)

/-- The disk as far as the directories matter that the program is started in and told to work on. -/
def loadDisk (target : String) : IO Disk := do
  let here := (Pathname.ofString (← IO.currentDir).toString).parts
  let disk : Disk := ⟨Node.put (← load ".") here (.dir []), here⟩
  let path := Pathname.ofString target
  if (disk.locate? path).isOk then return disk
  try
    let real := (← IO.FS.realPath target).toString
    return disk.put (Pathname.ofString real).parts (← load real)
  catch _ => return disk

end EnvFill.Main

open EnvFill EnvFill.Main in
def main (args : List String) : IO UInt32 := do
  match Command.Request.parse args with
  | .error message =>
    IO.eprintln message
    return 2
  | .ok request =>
    let (config, warnings) := Config.build (← environment) request.options
    for warning in warnings do
      IO.eprintln warning
    let disk ← loadDisk request.options.target
    converse (request.action config) disk false 0 disk []
