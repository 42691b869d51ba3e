import EnvFill.OrderedMap

/-!
The tree of files on a disk. A place is given by the names that lead to it from the top, none of
them through a link.
-/

namespace EnvFill.Storage

/-- A file with its bytes, a link with the path written in it, or a directory with its entries. -/
inductive Node where
  | file (bytes : List UInt8)
  | link (target : String)
  | dir (entries : List (String × Node))

abbrev Location := List String

namespace Node

def entries : Node → List (String × Node)
  | .dir entries => entries
  | _ => []

def isDir : Node → Bool
  | .dir _ => true
  | _ => false

def bytes? : Node → Option (List UInt8)
  | .file bytes => some bytes
  | _ => none

def get? : Location → Node → Option Node
  | [], node => some node
  | name :: rest, node => (node.entries.lookup name).bind (get? rest)

/-- Puts something at a place, with the directories that lead there. Below a file or a link there
are no places. -/
def put (new : Node) : Location → Node → Node
  | [], _ => new
  | name :: rest, .dir entries =>
    .dir (putPair name (put new rest ((entries.lookup name).getD (.dir []))) entries)
  | _ :: _, node => node

def remove : Location → Node → Node
  | [], node => node
  | [name], .dir entries => .dir (entries.filter fun entry => entry.1 != name)
  | name :: next :: rest, .dir entries =>
    match entries.lookup name with
    | some child => .dir (putPair name (remove (next :: rest) child) entries)
    | none => .dir entries
  | _ :: _, node => node

mutual

def linkCount : Node → Nat
  | .file _ => 0
  | .link _ => 1
  | .dir entries => entriesLinkCount entries

def entriesLinkCount : List (String × Node) → Nat
  | [] => 0
  | entry :: rest => entryLinkCount entry + entriesLinkCount rest

def entryLinkCount : String × Node → Nat
  | (_, node) => linkCount node

end

end Node

end EnvFill.Storage
