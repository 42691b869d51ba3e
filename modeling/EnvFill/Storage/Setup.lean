import EnvFill.Storage.Write

/-!
Setting up a disk: files, links and directories are made, with the directories that lead to them,
and taken away.
-/

namespace EnvFill.Storage

open Edit

/-- Goes from the directory `place` along `steps` to the place of a file that is there or can be
made, through at most `links` links. -/
def fileFrom? (top : Node) (links : Nat) (place : Location) :
    List String → Except DiskError Location
  | [] => .error .isDirectory
  | step :: rest =>
    if step = "." then fileFrom? top links place rest
    else if step = ".." then fileFrom? top links place.dropLast rest
    else if isTooLong step then .error .nameTooLong
    else
      match top.get? (place ++ [step]) with
      | none => if rest.isEmpty then .ok (place ++ [step]) else .error .missing
      | some (.dir _) => fileFrom? top links (place ++ [step]) rest
      | some (.file _) => if rest.isEmpty then .ok (place ++ [step]) else .error .notDirectory
      | some (.link target) =>
        match links with
        | 0 => .error .tooManyLinks
        | links + 1 => fileFrom? top links (linkStart place target) (linkSteps target ++ rest)
  termination_by steps => (links, steps.length)

def Disk.filePlace? (disk : Disk) (path : Pathname) : Except DiskError Location := do
  Disk.checkText path
  fileFrom? disk.top maxLinks (disk.startOf path) path.parts

def makeFile (path : Pathname) (bytes : List UInt8) : Edit DiskError Unit := do
  ensureDirectories path.parent
  let place ← look (·.filePlace? path)
  putAt place (.file bytes)

def makeLink (path : Pathname) (target : String) : Edit DiskError Unit := do
  ensureDirectories path.parent
  if target.isEmpty then throw .missing
  if target.toList.contains '\x00' then throw .zeroCharacter
  if maxPathBytes < target.utf8ByteSize then throw .nameTooLong
  match ← look (·.entryPlace? path) with
  | none => throw .alreadyExists
  | some place =>
    if ((← get).top.get? place).isSome then throw .alreadyExists
    putAt place (.link target)

def removeEntry (path : Pathname) : Edit DiskError Unit := do
  match ← look (·.entryPlace? path) with
  | none => throw .busy
  | some place =>
    if ((← get).top.get? place).isNone then throw .missing
    modify fun disk => { disk with top := disk.top.remove place }

end EnvFill.Storage
