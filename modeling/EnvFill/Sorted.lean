/-!
Sorted lists of names without repeats, in the order of code points.
-/

namespace EnvFill.Sorted

/-- Puts a name into its place; a name that is there already is not repeated. -/
def insert (name : String) : List String → List String
  | [] => [name]
  | head :: rest =>
    if name < head then name :: head :: rest
    else if name = head then head :: rest
    else head :: insert name rest

def ofList (names : List String) : List String := names.foldr insert []

@[simp]
theorem mem_insert {a name : String} {names : List String} :
    a ∈ insert name names ↔ a = name ∨ a ∈ names := by
  induction names with
  | nil => simp [insert]
  | cons head rest ih =>
    unfold insert
    split
    · simp
    · split
      · next h => subst h; simp
      · simp only [List.mem_cons, ih]
        exact or_left_comm

@[simp]
theorem mem_ofList {a : String} {names : List String} : a ∈ ofList names ↔ a ∈ names := by
  induction names with
  | nil => simp [ofList]
  | cons name rest ih => simpa [ofList] using or_congr_right ih

def byName {α : Type} (pairs : List (String × α)) : List (String × α) :=
  pairs.mergeSort fun a b => a.1 ≤ b.1

end EnvFill.Sorted
