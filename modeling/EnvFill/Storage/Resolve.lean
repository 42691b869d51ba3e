import EnvFill.Storage.Lookup

/-!
The place that a path stands for, whether or not something is there: links are followed, and names
that are not there are taken as they are written, so that the path of a new file has a place too.
Links that lead back to themselves stand for no place.
-/

namespace EnvFill.Storage

/-- The links met so far: for each, the place that it stands for, or nothing while its own path is
being followed. -/
abbrev LinksMet := List (Location × Option Location)

/-- How far a path was followed. If it met a link whose own path is being followed, it was left
there, and `steps` are the components up to this link with those that would come after it; else they
are the names of its place. -/
structure Resolution where
  met : LinksMet
  steps : List String
  isComplete : Bool

/-- The components that come after a link, seen from the link. If the first of several is empty they
are those of an absolute path. -/
def stepsBehind (link : List String) : List String → List String
  | "" :: step :: rest => step :: rest
  | rest => link ++ rest

/-- Goes from `place` along `steps`, through links within at most `depth` others. -/
def resolveFrom (top : Node) (depth : Nat) (met : LinksMet) (place : Location) :
    List String → Resolution
  | [] => ⟨met, place, true⟩
  | step :: rest =>
    if step = "" || step = "." then resolveFrom top depth met place rest
    else if step = ".." then resolveFrom top depth met place.dropLast rest
    else
      let here := place ++ [step]
      match top.get? here with
      | some (.link target) =>
        match met.lookup here with
        | some (some goal) => resolveFrom top depth met goal rest
        | some none => ⟨met, stepsBehind here rest, false⟩
        | none =>
          match depth with
          | 0 => ⟨met, stepsBehind here rest, false⟩
          | depth + 1 =>
            let inner :=
              resolveFrom top depth ((here, none) :: met) (linkStart place target)
                (components target)
            if inner.isComplete then
              resolveFrom top (depth + 1) ((here, some inner.steps) :: inner.met) inner.steps rest
            else ⟨inner.met, stepsBehind inner.steps rest, false⟩
      | _ => resolveFrom top depth met here rest
  termination_by steps => (depth, steps.length)

/-- The place that a path stands for. No link lies within more others than there are links. -/
def Disk.resolve (disk : Disk) (path : Pathname) : Except DiskError Location :=
  if path.hasZero then .error .zeroCharacter
  else
    let followed :=
      resolveFrom disk.top disk.top.linkCount [] (disk.startOf path) path.parts
    let place := Pathname.withoutParents followed.steps
    match disk.locate? (.ofRoot place) with
    | .error .tooManyLinks => .error .tooManyLinks
    | _ => .ok place

end EnvFill.Storage
