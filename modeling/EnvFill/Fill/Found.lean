import EnvFill.Sorted

/-!
The variables that a project uses, each with the files that mention it. Names and files are in order
and distinct.
-/

namespace EnvFill.Fill

structure Found where
  toList : List (String × List String)
  deriving DecidableEq, Repr

namespace Found

def empty : Found := ⟨[]⟩

instance : EmptyCollection Found := ⟨empty⟩

def names (found : Found) : List String := found.toList.map Prod.fst

def isEmpty (found : Found) : Bool := found.toList.isEmpty

def files (found : Found) (name : String) : List String := (found.toList.lookup name).getD []

/-- Variables with the files given for them. A name that is given again takes its last files. -/
def ofList (pairs : List (String × List String)) : Found where
  toList := (Sorted.ofList (pairs.map Prod.fst)).map fun name =>
    (name, Sorted.ofList ((pairs.reverse.lookup name).getD []))

/-- Variables from single mentions: a name and a file that mentions it. -/
def ofMentions (mentions : List (String × String)) : Found where
  toList := (Sorted.ofList (mentions.map Prod.fst)).map fun name =>
    (name, Sorted.ofList ((mentions.filter fun mention => mention.1 == name).map Prod.snd))

end Found

end EnvFill.Fill
