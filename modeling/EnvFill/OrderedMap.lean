/-!
Maps that remember the order in which their keys first came. A key keeps its place when its value
changes.
-/

namespace EnvFill

/-- The pairs of a map in order, with the value of `key` replaced where it stands or added last. -/
def putPair {κ ν : Type} [DecidableEq κ] (key : κ) (value : ν) : List (κ × ν) → List (κ × ν)
  | [] => [(key, value)]
  | pair :: rest => if pair.1 = key then (key, value) :: rest else pair :: putPair key value rest

theorem map_fst_putPair {κ ν : Type} [DecidableEq κ] (key : κ) (value : ν) (pairs : List (κ × ν)) :
    (putPair key value pairs).map Prod.fst =
      if key ∈ pairs.map Prod.fst then pairs.map Prod.fst else pairs.map Prod.fst ++ [key] := by
  induction pairs with
  | nil => simp [putPair]
  | cons pair rest ih =>
    by_cases h : pair.1 = key
    · simp [putPair, h]
    · have hne : key ≠ pair.1 := fun e => h e.symm
      simp only [putPair, h, if_false, List.map_cons, ih, List.mem_cons, hne, false_or]
      split <;> simp

/-- A map with a first-come order on its keys. -/
structure OrderedMap (κ ν : Type) where
  toList : List (κ × ν)
  nodup_keys : (toList.map Prod.fst).Nodup

namespace OrderedMap

variable {κ ν : Type}

@[ext]
theorem ext {a b : OrderedMap κ ν} (h : a.toList = b.toList) : a = b := by
  cases a
  cases b
  cases h
  rfl

def empty : OrderedMap κ ν := ⟨[], by simp⟩

instance : EmptyCollection (OrderedMap κ ν) := ⟨empty⟩

instance : Inhabited (OrderedMap κ ν) := ⟨empty⟩

def keys (map : OrderedMap κ ν) : List κ := map.toList.map Prod.fst

def size (map : OrderedMap κ ν) : Nat := map.toList.length

def isEmpty (map : OrderedMap κ ν) : Bool := map.toList.isEmpty

variable [DecidableEq κ]

def get? (map : OrderedMap κ ν) (key : κ) : Option ν :=
  (map.toList.find? fun pair => pair.1 == key).map Prod.snd

def contains (map : OrderedMap κ ν) (key : κ) : Bool := map.keys.contains key

def insert (map : OrderedMap κ ν) (key : κ) (value : ν) : OrderedMap κ ν where
  toList := putPair key value map.toList
  nodup_keys := by
    rw [map_fst_putPair]
    split
    · exact map.nodup_keys
    · rename_i h
      refine List.nodup_append.2 ⟨map.nodup_keys, by simp, ?_⟩
      rintro a ha b hb rfl
      exact h (List.mem_singleton.1 hb ▸ ha)

/-- The pairs taken one after another: a later value wins, the first place stays. -/
def insertMany (map : OrderedMap κ ν) (pairs : List (κ × ν)) : OrderedMap κ ν :=
  pairs.foldl (fun map pair => map.insert pair.1 pair.2) map

def ofList (pairs : List (κ × ν)) : OrderedMap κ ν := insertMany ∅ pairs

def merge (map other : OrderedMap κ ν) : OrderedMap κ ν := map.insertMany other.toList

omit [DecidableEq κ] in
@[simp]
theorem toList_empty : (∅ : OrderedMap κ ν).toList = [] := rfl

@[simp]
theorem toList_insert (map : OrderedMap κ ν) (key : κ) (value : ν) :
    (map.insert key value).toList = putPair key value map.toList := rfl

/-- The keys after an insertion. -/
theorem keys_insert (map : OrderedMap κ ν) (key : κ) (value : ν) :
    (map.insert key value).keys =
      if key ∈ map.keys then map.keys else map.keys ++ [key] :=
  map_fst_putPair key value map.toList

end OrderedMap

end EnvFill
