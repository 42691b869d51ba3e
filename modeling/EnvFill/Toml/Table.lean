import EnvFill.OrderedMap

/-!
The data of a TOML document, as far as it matters here: strings, arrays and tables. Numbers, truth
values, dates and times are told apart from these but not from each other.
-/

namespace EnvFill.Toml

inductive Value where
  | string (text : String)
  | scalar
  | array (items : List Value)
  | table (entries : List (String × Value))

abbrev Table := List (String × Value)

abbrev Key := List String

/-- Changes the table at the end of a dotted key; tables on the way are made as needed. Where
`throughArrays` holds, the last table of an array stands for the array. -/
def modifyAt (throughArrays : Bool) (change : Table → Option Table) : Key → Table → Option Table
  | [], table => change table
  | name :: key, table =>
    match table.lookup name with
    | none =>
      (modifyAt throughArrays change key []).map fun inner => putPair name (.table inner) table
    | some (.table inner) =>
      (modifyAt throughArrays change key inner).map fun inner => putPair name (.table inner) table
    | some (.array items) =>
      match throughArrays, items.getLast? with
      | true, some (.table inner) =>
        (modifyAt throughArrays change key inner).map fun inner =>
          putPair name (.array (items.dropLast ++ [.table inner])) table
      | _, _ => none
    | some _ => none

def define (name : String) (value : Value) (table : Table) : Option Table :=
  if (table.lookup name).isSome then none else some (putPair name value table)

def appendTable (name : String) (table : Table) : Option Table :=
  match table.lookup name with
  | none => some (putPair name (.array [.table []]) table)
  | some (.array items) => some (putPair name (.array (items ++ [.table []])) table)
  | some _ => none

end EnvFill.Toml
