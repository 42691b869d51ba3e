import EnvFill.Storage.Node
import EnvFill.Sorted

/-!
Walking a tree: the directories that are entered, each before those in it, and these in the order of
their names. Links are never followed.
-/

namespace EnvFill.Storage

/-- A directory met on a walk: the names that lead to it, and what it holds. -/
structure Visit where
  path : Location
  entries : List (String × Node)

mutual

/-- The directories from a node on, which lies at `path`. `enters` says which others are entered. -/
def walkFrom (enters : Location → Bool) (path : Location) : Node → List Visit
  | .dir entries =>
    ⟨path, entries⟩ :: (Sorted.byName (walkEntries enters path entries)).flatMap Prod.snd
  | .file _ => []
  | .link _ => []

/-- The walks from the entries of the directory at `path`, by name. -/
def walkEntries (enters : Location → Bool) (path : Location) :
    List (String × Node) → List (String × List Visit)
  | [] => []
  | entry :: rest => walkEntry enters path entry :: walkEntries enters path rest

def walkEntry (enters : Location → Bool) (path : Location) : String × Node → String × List Visit
  | (name, node) =>
    (name, if enters (path ++ [name]) then walkFrom enters (path ++ [name]) node else [])

end

end EnvFill.Storage
