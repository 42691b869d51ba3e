import EnvFill.OrderedMap

/-!
# Merging maps that keep their order

`toList_merge` says what a merge is, place by place: old keys stay where they are, with new values
where there are some, and the new keys follow in their own order.
-/

namespace EnvFill

section Pairs

variable {κ ν : Type} [DecidableEq κ]

theorem map_eq_self {α : Type} {f : α → α} {list : List α} (hf : ∀ a ∈ list, f a = a) :
    list.map f = list := by
  rw [List.map_congr_left hf]
  exact List.map_id' list

theorem putPair_of_not_mem {key : κ} {pairs : List (κ × ν)} (hkey : key ∉ pairs.map Prod.fst)
    (value : ν) : putPair key value pairs = pairs ++ [(key, value)] := by
  induction pairs with
  | nil => rfl
  | cons pair rest ih =>
    simp only [List.map_cons, List.mem_cons, not_or] at hkey
    rw [putPair, if_neg (Ne.symm hkey.1), ih hkey.2, List.cons_append]

theorem putPair_of_mem {key : κ} {pairs : List (κ × ν)} (hnodup : (pairs.map Prod.fst).Nodup)
    (hkey : key ∈ pairs.map Prod.fst) (value : ν) :
    putPair key value pairs =
      pairs.map fun pair => (pair.1, if pair.1 = key then value else pair.2) := by
  induction pairs with
  | nil => simp at hkey
  | cons pair rest ih =>
    rw [List.map_cons, List.nodup_cons] at hnodup
    rw [putPair, List.map_cons]
    by_cases heq : pair.1 = key
    · have hrest : ∀ other ∈ rest, other.1 ≠ key := by
        intro other hother hsame
        exact hnodup.1 (heq ▸ hsame ▸ List.mem_map_of_mem hother)
      rw [if_pos heq, if_pos heq, heq, map_eq_self]
      intro other hother
      rw [if_neg (hrest other hother)]
    · have hmem : key ∈ rest.map Prod.fst := by
        rw [List.map_cons, List.mem_cons] at hkey
        exact hkey.resolve_left (Ne.symm heq)
      rw [if_neg heq, if_neg heq, ih hnodup.2 hmem]

/-- A change of values alone may come before or after a pair is put. -/
theorem putPair_map (change : κ → ν → ν) (key : κ) (value : ν) (pairs : List (κ × ν)) :
    putPair key (change key value) (pairs.map fun pair => (pair.1, change pair.1 pair.2)) =
      (putPair key value pairs).map fun pair => (pair.1, change pair.1 pair.2) := by
  induction pairs with
  | nil => rfl
  | cons pair rest ih =>
    rw [List.map_cons, putPair, putPair, ih]
    split <;> rfl

/-- Pairs may be left out by their keys before or after a pair is put. -/
theorem filter_putPair (keep : κ → Bool) (key : κ) (value : ν) (pairs : List (κ × ν)) :
    ((putPair key value pairs).filter fun pair => keep pair.1) =
      if keep key then putPair key value (pairs.filter fun pair => keep pair.1)
      else pairs.filter fun pair => keep pair.1 := by
  induction pairs with
  | nil => cases hkeep : keep key <;> simp [putPair, hkeep]
  | cons pair rest ih =>
    by_cases heq : pair.1 = key
    · rw [putPair, if_pos heq, List.filter_cons, List.filter_cons, heq]
      cases keep key
      · rfl
      · simp [putPair, heq]
    · rw [putPair, if_neg heq, List.filter_cons, List.filter_cons, ih]
      cases keep pair.1 <;> cases keep key <;> simp [putPair, heq]

def valueIn? (pairs : List (κ × ν)) (key : κ) : Option ν :=
  (pairs.find? fun pair => pair.1 == key).map Prod.snd

theorem valueIn?_cons (pair : κ × ν) (pairs : List (κ × ν)) (key : κ) :
    valueIn? (pair :: pairs) key = if pair.1 = key then some pair.2 else valueIn? pairs key := by
  unfold valueIn?
  rw [List.find?_cons]
  by_cases heq : pair.1 = key
  · simp [heq]
  · have hbeq : (pair.1 == key) = false := by simpa using heq
    rw [hbeq, if_neg heq]

theorem valueIn?_eq_none {pairs : List (κ × ν)} {key : κ} (hkey : key ∉ pairs.map Prod.fst) :
    valueIn? pairs key = none := by
  induction pairs with
  | nil => rfl
  | cons pair rest ih =>
    simp only [List.map_cons, List.mem_cons, not_or] at hkey
    rw [valueIn?_cons, if_neg (Ne.symm hkey.1), ih hkey.2]

theorem valueIn?_eq_some {pairs : List (κ × ν)} (hnodup : (pairs.map Prod.fst).Nodup)
    {pair : κ × ν} (hpair : pair ∈ pairs) : valueIn? pairs pair.1 = some pair.2 := by
  induction pairs with
  | nil => simp at hpair
  | cons first rest ih =>
    rw [List.map_cons, List.nodup_cons] at hnodup
    rw [valueIn?_cons]
    rcases List.mem_cons.mp hpair with rfl | hrest
    · rw [if_pos rfl]
    · have hne : first.1 ≠ pair.1 := fun heq => hnodup.1 (heq ▸ List.mem_map_of_mem hrest)
      rw [if_neg hne, ih hnodup.2 hrest]

end Pairs

namespace OrderedMap

variable {κ ν : Type} [DecidableEq κ]

theorem mem_keys_insert {map : OrderedMap κ ν} {key other : κ} {value : ν} :
    other ∈ (map.insert key value).keys ↔ other ∈ map.keys ∨ other = key := by
  rw [keys_insert]
  split
  · rename_i hkey
    constructor
    · exact Or.inl
    · rintro (hother | rfl)
      · exact hother
      · exact hkey
  · simp

theorem insertMany_cons (map : OrderedMap κ ν) (pair : κ × ν) (pairs : List (κ × ν)) :
    map.insertMany (pair :: pairs) = (map.insert pair.1 pair.2).insertMany pairs := rfl

theorem insertMany_append (map : OrderedMap κ ν) (front back : List (κ × ν)) :
    map.insertMany (front ++ back) = (map.insertMany front).insertMany back :=
  List.foldl_append

theorem mem_keys_insertMany {map : OrderedMap κ ν} {pairs : List (κ × ν)} {key : κ} :
    key ∈ (map.insertMany pairs).keys ↔ key ∈ map.keys ∨ key ∈ pairs.map Prod.fst := by
  induction pairs generalizing map with
  | nil => simp [insertMany]
  | cons pair rest ih =>
    rw [insertMany_cons, ih, mem_keys_insert, List.map_cons, List.mem_cons, or_assoc]

theorem mem_keys_ofList {pairs : List (κ × ν)} {key : κ} :
    key ∈ (ofList pairs).keys ↔ key ∈ pairs.map Prod.fst := by
  rw [ofList, mem_keys_insertMany]
  simp [keys]

/-- Pairs with distinct keys, taken over one after another. -/
theorem toList_insertMany (map : OrderedMap κ ν) {pairs : List (κ × ν)}
    (hnodup : (pairs.map Prod.fst).Nodup) :
    (map.insertMany pairs).toList =
      (map.toList.map fun pair => (pair.1, (valueIn? pairs pair.1).getD pair.2)) ++
        pairs.filter fun pair => pair.1 ∉ map.keys := by
  induction pairs generalizing map with
  | nil => simp [insertMany, valueIn?]
  | cons pair rest ih =>
    obtain ⟨key, value⟩ := pair
    rw [List.map_cons, List.nodup_cons] at hnodup
    have hrest : ∀ other ∈ rest, other.1 ≠ key := fun other hother heq =>
      hnodup.1 (List.mem_map.mpr ⟨other, hother, heq⟩)
    have hnone : valueIn? rest key = none := valueIn?_eq_none hnodup.1
    rw [insertMany_cons, ih _ hnodup.2, toList_insert, List.filter_cons]
    by_cases hkey : key ∈ map.keys
    · rw [putPair_of_mem map.nodup_keys hkey, if_neg (by simpa using hkey), List.map_map]
      congr 1
      · refine List.map_congr_left fun other _ => ?_
        rw [Function.comp_apply, valueIn?_cons]
        by_cases heq : other.1 = key
        · simp [heq, hnone]
        · simp [heq, Ne.symm heq]
      · refine List.filter_congr fun other _ => ?_
        rw [keys_insert, if_pos hkey]
    · rw [putPair_of_not_mem hkey, if_pos (by simpa using hkey), List.map_append, List.append_assoc]
      congr 1
      · refine List.map_congr_left fun other hother => ?_
        have hne : key ≠ other.1 := fun heq => hkey (heq ▸ List.mem_map_of_mem hother)
        rw [valueIn?_cons, if_neg hne]
      · rw [List.map_singleton, hnone, List.singleton_append]
        congr 1
        refine List.filter_congr fun other hother => ?_
        rw [keys_insert, if_neg hkey]
        simp [hrest other hother]

/-- Pairs with distinct new keys follow the old ones. -/
theorem toList_insertMany_of_fresh {map : OrderedMap κ ν} {pairs : List (κ × ν)}
    (hnodup : (pairs.map Prod.fst).Nodup) (hfresh : ∀ pair ∈ pairs, pair.1 ∉ map.keys) :
    (map.insertMany pairs).toList = map.toList ++ pairs := by
  have hold : (map.toList.map fun pair => (pair.1, (valueIn? pairs pair.1).getD pair.2)) =
      map.toList := by
    refine map_eq_self fun pair hpair => ?_
    have hkey : pair.1 ∉ pairs.map Prod.fst := by
      intro hmem
      obtain ⟨other, hother, hsame⟩ := List.mem_map.mp hmem
      exact hfresh other hother (hsame ▸ List.mem_map_of_mem hpair)
    rw [valueIn?_eq_none hkey, Option.getD_none]
  have hnew : (pairs.filter fun pair => pair.1 ∉ map.keys) = pairs :=
    List.filter_eq_self.mpr fun pair hpair => by simpa using hfresh pair hpair
  rw [toList_insertMany map hnodup, hold, hnew]

theorem merge_of_isEmpty {map other : OrderedMap κ ν} (hempty : other.isEmpty = true) :
    map.merge other = map := by
  have hnil : other.toList = [] := List.isEmpty_iff.mp hempty
  rw [merge, hnil]
  rfl

/-- **A merge, place by place.** -/
theorem toList_merge (map other : OrderedMap κ ν) :
    (map.merge other).toList =
      (map.toList.map fun pair => (pair.1, (other.get? pair.1).getD pair.2)) ++
        other.toList.filter fun pair => pair.1 ∉ map.keys :=
  toList_insertMany map other.nodup_keys

theorem mem_keys_merge {map other : OrderedMap κ ν} {key : κ} :
    key ∈ (map.merge other).keys ↔ key ∈ map.keys ∨ key ∈ other.keys :=
  mem_keys_insertMany

theorem mem_keys_foldl_merge {map : OrderedMap κ ν} {others : List (OrderedMap κ ν)} {key : κ} :
    key ∈ (others.foldl merge map).keys ↔ key ∈ map.keys ∨ ∃ other ∈ others, key ∈ other.keys := by
  induction others generalizing map with
  | nil => simp
  | cons other rest ih => simp [ih, mem_keys_merge, or_assoc]

/-- A change of values alone may come before or after pairs are taken over. -/
theorem toList_ofList_map (change : κ → ν → ν) (pairs : List (κ × ν)) :
    (ofList (pairs.map fun pair => (pair.1, change pair.1 pair.2))).toList =
      (ofList pairs).toList.map fun pair => (pair.1, change pair.1 pair.2) := by
  suffices hmany : ∀ map map' : OrderedMap κ ν,
      map'.toList = (map.toList.map fun pair => (pair.1, change pair.1 pair.2)) →
        (map'.insertMany (pairs.map fun pair => (pair.1, change pair.1 pair.2))).toList =
          (map.insertMany pairs).toList.map fun pair => (pair.1, change pair.1 pair.2) from
    hmany ∅ ∅ rfl
  induction pairs with
  | nil => exact fun _ _ hmap => hmap
  | cons pair rest ih =>
    intro map map' hmap
    rw [List.map_cons, insertMany_cons, insertMany_cons]
    apply ih
    rw [toList_insert, toList_insert, hmap, putPair_map]

/-- Pairs may be left out by their keys before or after they are taken over. -/
theorem toList_ofList_filter (keep : κ → Bool) (pairs : List (κ × ν)) :
    (ofList (pairs.filter fun pair => keep pair.1)).toList =
      (ofList pairs).toList.filter fun pair => keep pair.1 := by
  suffices hmany : ∀ map map' : OrderedMap κ ν,
      map'.toList = (map.toList.filter fun pair => keep pair.1) →
        (map'.insertMany (pairs.filter fun pair => keep pair.1)).toList =
          (map.insertMany pairs).toList.filter fun pair => keep pair.1 from
    hmany ∅ ∅ rfl
  induction pairs with
  | nil => exact fun _ _ hmap => hmap
  | cons pair rest ih =>
    intro map map' hmap
    rw [insertMany_cons, List.filter_cons]
    cases hkeep : keep pair.1 with
    | false =>
      apply ih
      rw [toList_insert, filter_putPair, hkeep, hmap]
      rfl
    | true =>
      rw [if_pos rfl, insertMany_cons]
      apply ih
      rw [toList_insert, toList_insert, filter_putPair, hkeep, hmap, if_pos rfl]

theorem get?_eq_some {map : OrderedMap κ ν} {pair : κ × ν} (hpair : pair ∈ map.toList) :
    map.get? pair.1 = some pair.2 :=
  valueIn?_eq_some map.nodup_keys hpair

theorem get?_eq_none {map : OrderedMap κ ν} {key : κ} (hkey : key ∉ map.keys) :
    map.get? key = none :=
  valueIn?_eq_none hkey

theorem mem_of_get? {map : OrderedMap κ ν} {key : κ} {value : ν} (hget : map.get? key = some value) :
    (key, value) ∈ map.toList := by
  obtain ⟨pair, hfind, rfl⟩ := Option.map_eq_some_iff.mp hget
  have hkey : pair.1 = key := by simpa using List.find?_some hfind
  exact hkey ▸ List.mem_of_find?_eq_some hfind

omit [DecidableEq κ] in
theorem exists_mem_of_mem_keys {map : OrderedMap κ ν} {key : κ} (hkey : key ∈ map.keys) :
    ∃ value, (key, value) ∈ map.toList := by
  obtain ⟨⟨other, value⟩, hmem, rfl⟩ := List.mem_map.mp hkey
  exact ⟨value, hmem⟩

theorem get?_merge (map other : OrderedMap κ ν) (key : κ) :
    (map.merge other).get? key = (other.get? key).or (map.get? key) := by
  by_cases hmap : key ∈ map.keys
  · obtain ⟨value, hmem⟩ := exists_mem_of_mem_keys hmap
    have hmerged : (key, (other.get? key).getD value) ∈ (map.merge other).toList := by
      rw [toList_merge]
      exact List.mem_append_left _ (List.mem_map.mpr ⟨(key, value), hmem, rfl⟩)
    rw [get?_eq_some hmerged, get?_eq_some hmem]
    cases other.get? key <;> rfl
  · rw [get?_eq_none hmap, Option.or_none]
    by_cases hother : key ∈ other.keys
    · obtain ⟨value, hmem⟩ := exists_mem_of_mem_keys hother
      have hmerged : (key, value) ∈ (map.merge other).toList := by
        rw [toList_merge]
        exact List.mem_append_right _ (List.mem_filter.mpr ⟨hmem, by simpa using hmap⟩)
      rw [get?_eq_some hmerged, get?_eq_some hmem]
    · have hmerged : key ∉ (map.merge other).keys := by
        rw [mem_keys_merge, not_or]
        exact ⟨hmap, hother⟩
      rw [get?_eq_none hmerged, get?_eq_none hother]

theorem merge_self (map : OrderedMap κ ν) : map.merge map = map := by
  refine ext ?_
  have hold : (map.toList.map fun pair => (pair.1, (map.get? pair.1).getD pair.2)) = map.toList := by
    refine map_eq_self fun pair hpair => ?_
    rw [get?_eq_some hpair, Option.getD_some]
  have hnew : (map.toList.filter fun pair => pair.1 ∉ map.keys) = [] := by
    rw [List.filter_eq_nil_iff]
    intro pair hpair
    have hkey : pair.1 ∈ map.keys := List.mem_map_of_mem hpair
    simpa using hkey
  rw [toList_merge, hold, hnew, List.append_nil]

/-- Pairs with new values where `other` has some, followed by its new keys, make the merge. -/
theorem ofList_append_eq_merge (pairs : List (κ × ν)) (other : OrderedMap κ ν) :
    ofList ((pairs.map fun pair => (pair.1, (other.get? pair.1).getD pair.2)) ++
        other.toList.filter fun pair => pair.1 ∉ pairs.map Prod.fst) =
      (ofList pairs).merge other := by
  have hupdated := toList_ofList_map (fun key value => (other.get? key).getD value) pairs
  have hnew : (other.toList.filter fun pair => pair.1 ∉ pairs.map Prod.fst) =
      other.toList.filter fun pair => pair.1 ∉ (ofList pairs).keys :=
    List.filter_congr fun pair _ => decide_eq_decide.mpr (not_congr mem_keys_ofList.symm)
  have hnodup :
      ((other.toList.filter fun pair => pair.1 ∉ (ofList pairs).keys).map Prod.fst).Nodup :=
    (List.filter_sublist.map Prod.fst).nodup other.nodup_keys
  have hkeys : (ofList (pairs.map fun pair => (pair.1, (other.get? pair.1).getD pair.2))).keys =
      (ofList pairs).keys := by
    unfold keys
    rw [hupdated, List.map_map]
    rfl
  refine ext ?_
  rw [hnew, toList_merge, ofList, insertMany_append, ← ofList, toList_insertMany _ hnodup,
    hupdated, hkeys, List.map_map, List.filter_filter]
  congr 1
  · refine List.map_congr_left fun pair hpair => ?_
    rw [Function.comp_apply, valueIn?_eq_none]
    · rfl
    · intro hmem
      obtain ⟨new, hmem, hsame⟩ := List.mem_map.mp hmem
      rw [List.mem_filter, hsame, decide_eq_true_iff] at hmem
      exact hmem.2 (List.mem_map.mpr ⟨pair, hpair, rfl⟩)
  · exact List.filter_congr fun pair _ => Bool.and_self _

end OrderedMap

end EnvFill
