import EnvFill.Proofs.Merge
import EnvFill.Storage.Lookup
import Mathlib

/-!
# Putting something into a tree

What is put at a place is found there, and nothing else changes but for the directories on the way.
This needs room: no file and no link may stand where such a directory would be.
-/

namespace EnvFill

section Lookup

variable {κ ν : Type} [DecidableEq κ] {key other : κ} {value : ν} {pairs : List (κ × ν)}

theorem mem_of_lookup (hlookup : pairs.lookup key = some value) : (key, value) ∈ pairs := by
  obtain ⟨front, back, rfl, -⟩ := List.lookup_eq_some_iff.mp hlookup
  simp

theorem lookup_putPair_self : (putPair key value pairs).lookup key = some value := by
  induction pairs with
  | nil => simp [putPair]
  | cons pair rest ih =>
    rw [putPair]
    split
    · simp
    · rename_i hne
      rw [List.lookup_cons, beq_false_of_ne (Ne.symm hne), ih]

theorem lookup_putPair_of_ne (hne : other ≠ key) :
    (putPair key value pairs).lookup other = pairs.lookup other := by
  induction pairs with
  | nil => simp [putPair, List.lookup, beq_false_of_ne hne]
  | cons pair rest ih =>
    rw [putPair]
    split
    · rename_i heq
      rw [List.lookup_cons, List.lookup_cons, heq, beq_false_of_ne hne]
    · rw [List.lookup_cons, List.lookup_cons, ih]

theorem putPair_self (hvalue : pairs.lookup key = some value) : putPair key value pairs = pairs := by
  induction pairs with
  | nil => simp at hvalue
  | cons pair rest ih =>
    rw [List.lookup_cons] at hvalue
    rw [putPair]
    by_cases heq : pair.1 = key
    · subst heq
      obtain rfl : pair.2 = value := by simpa using hvalue
      rw [if_pos rfl]
    · rw [beq_false_of_ne (Ne.symm heq)] at hvalue
      rw [if_neg heq, ih hvalue]

theorem putPair_putPair (old : ν) :
    putPair key value (putPair key old pairs) = putPair key value pairs := by
  induction pairs with
  | nil => simp [putPair]
  | cons pair rest ih =>
    by_cases heq : pair.1 = key
    · simp [putPair, heq]
    · simp [putPair, heq, ih]

end Lookup

namespace Storage.Node

variable {node new old : Node} {place other front : Location}

/-- There is room for something at a place: what is there on the way is a directory. -/
def HasRoom : Location → Node → Prop
  | [], _ => True
  | name :: rest, .dir entries => HasRoom rest ((entries.lookup name).getD (.dir []))
  | _ :: _, _ => False

theorem get?_append (front back : Location) (node : Node) :
    node.get? (front ++ back) = (node.get? front).bind (get? back) := by
  induction front generalizing node with
  | nil => rfl
  | cons name front ih =>
    rw [List.cons_append, get?, get?]
    cases node.entries.lookup name with
    | none => rfl
    | some child => exact ih child

/-- What lies below something that is there lies in a directory. -/
theorem exists_dir_of_get?_concat {name : String} {child : Node}
    (hchild : node.get? (front ++ [name]) = some child) :
    ∃ entries, node.get? front = some (.dir entries) ∧ entries.lookup name = some child := by
  rw [get?_append] at hchild
  obtain ⟨parent, hparent, hget⟩ := Option.bind_eq_some_iff.mp hchild
  cases parent with
  | dir entries =>
    refine ⟨entries, hparent, ?_⟩
    obtain ⟨found, hlookup, hfound⟩ := Option.bind_eq_some_iff.mp hget
    exact hlookup.trans hfound
  | file bytes => simp [get?, entries] at hget
  | link target => simp [get?, entries] at hget

theorem exists_mem_of_get?_cons {name : String} {rest : Location} {entries : List (String × Node)}
    (hold : (Node.dir entries).get? (name :: rest) = some old) :
    ∃ child, (name, child) ∈ entries ∧ child.get? rest = some old := by
  obtain ⟨child, hlookup, hchild⟩ := Option.bind_eq_some_iff.mp hold
  exact ⟨child, mem_of_lookup hlookup, hchild⟩

theorem hasRoom_of_get? (hnode : node.get? place = some old) : HasRoom place node := by
  induction place generalizing node with
  | nil => trivial
  | cons name rest ih =>
    obtain ⟨child, hlookup, hchild⟩ := Option.bind_eq_some_iff.mp hnode
    cases node with
    | dir entries =>
      have hlookup' : entries.lookup name = some child := hlookup
      rw [HasRoom, hlookup']
      exact ih hchild
    | file bytes => simp [entries] at hlookup
    | link target => simp [entries] at hlookup

theorem hasRoom_append {back : Location} :
    HasRoom (front ++ back) node ↔
      HasRoom front node ∧ HasRoom back ((node.get? front).getD (.dir [])) := by
  induction front generalizing node with
  | nil => simp [HasRoom, get?]
  | cons name rest ih =>
    cases node with
    | dir entries =>
      rw [List.cons_append, HasRoom, HasRoom, ih, get?, Node.entries]
      cases entries.lookup name with
      | none => cases rest <;> simp [get?, Node.entries]
      | some child => rfl
    | file bytes => simp [HasRoom]
    | link target => simp [HasRoom]

theorem get?_put_self (hroom : HasRoom place node) :
    (put new place node).get? place = some new := by
  induction place generalizing node with
  | nil => rfl
  | cons name rest ih =>
    cases node with
    | dir entries =>
      rw [put, get?, Node.entries, lookup_putPair_self, Option.bind_some, ih hroom]
    | file bytes => exact absurd hroom (by simp [HasRoom])
    | link target => exact absurd hroom (by simp [HasRoom])

/-- What lies elsewhere stays. -/
theorem get?_put_of_apart (hbelow : ¬place <+: other) (habove : ¬other <+: place) :
    (put new place node).get? other = node.get? other := by
  induction place generalizing node other with
  | nil => exact absurd List.nil_prefix hbelow
  | cons name rest ih =>
    cases other with
    | nil => exact absurd List.nil_prefix habove
    | cons otherName otherRest =>
      cases node with
      | dir entries =>
        rw [put, get?, get?, Node.entries, Node.entries]
        by_cases hname : otherName = name
        · subst hname
          rw [List.cons_prefix_cons, not_and] at hbelow habove
          rw [lookup_putPair_self, Option.bind_some, ih (hbelow rfl) (habove rfl)]
          cases entries.lookup otherName with
          | none =>
            cases otherRest with
            | nil => exact absurd List.nil_prefix (habove rfl)
            | cons => rfl
          | some child => rfl
        · rw [lookup_putPair_of_ne hname]
      | file bytes => rfl
      | link target => rfl

/-- What lies on the way is a directory afterwards. -/
theorem exists_dir_get?_put {back : Location} (hback : back ≠ [])
    (hroom : HasRoom (front ++ back) node) :
    ∃ entries, (put new (front ++ back) node).get? front = some (.dir entries) := by
  induction front generalizing node with
  | nil =>
    obtain ⟨name, rest, rfl⟩ := List.exists_cons_of_ne_nil hback
    cases node with
    | dir entries => exact ⟨_, rfl⟩
    | file bytes => exact absurd hroom (by simp [HasRoom])
    | link target => exact absurd hroom (by simp [HasRoom])
  | cons name front ih =>
    cases node with
    | dir entries =>
      obtain ⟨below, hbelow⟩ := ih hroom
      refine ⟨below, ?_⟩
      rw [List.cons_append, put, get?, Node.entries, lookup_putPair_self, Option.bind_some, hbelow]
    | file bytes => exact absurd hroom (by simp [HasRoom])
    | link target => exact absurd hroom (by simp [HasRoom])

/-- What lay on the way was a directory, if anything. -/
theorem exists_dir_of_hasRoom {back : Location} (hback : back ≠ [])
    (hroom : HasRoom (front ++ back) node) (hold : node.get? front = some old) :
    ∃ entries, old = .dir entries := by
  have hbelow := (hasRoom_append.mp hroom).2
  obtain ⟨name, rest, rfl⟩ := List.exists_cons_of_ne_nil hback
  rw [hold, Option.getD_some] at hbelow
  cases old with
  | dir entries => exact ⟨entries, rfl⟩
  | file bytes => exact absurd hbelow (by simp [HasRoom])
  | link target => exact absurd hbelow (by simp [HasRoom])

/-- Something is put far down by putting the directory that holds it then. -/
theorem put_append (new : Node) (front back : Location) (node : Node) :
    put new (front ++ back) node =
      put (put new back ((node.get? front).getD (.dir []))) front node := by
  induction front generalizing node with
  | nil => rfl
  | cons name front ih =>
    cases node with
    | dir entries =>
      rw [List.cons_append, put, put, ih, get?, Node.entries]
      cases entries.lookup name with
      | none => cases front <;> rfl
      | some child => rfl
    | file bytes => rfl
    | link target => rfl

theorem put_put (new old : Node) (place : Location) (node : Node) :
    put new place (put old place node) = put new place node := by
  induction place generalizing node with
  | nil => rfl
  | cons name rest ih =>
    cases node with
    | dir entries =>
      simp only [put, lookup_putPair_self, Option.getD_some, putPair_putPair, ih]
    | file bytes => rfl
    | link target => rfl

/-- What is there already can be put there without a change. -/
theorem put_self (hold : node.get? place = some old) : put old place node = node := by
  induction place generalizing node with
  | nil => exact (Option.some.inj hold).symm
  | cons name rest ih =>
    obtain ⟨child, hlookup, hchild⟩ := Option.bind_eq_some_iff.mp hold
    cases node with
    | dir entries =>
      have hentry : entries.lookup name = some child := hlookup
      rw [put, hentry, Option.getD_some, ih hchild, putPair_self hentry]
    | file bytes => rfl
    | link target => rfl

theorem hasRoom_emptyDir (place : Location) : HasRoom place (.dir []) := by
  induction place with
  | nil => trivial
  | cons name rest ih => exact ih

/-- Without room nothing changes. -/
theorem put_of_not_hasRoom (hroom : ¬HasRoom place node) : put new place node = node := by
  induction place generalizing node with
  | nil => exact absurd trivial hroom
  | cons name rest ih =>
    cases node with
    | dir entries =>
      cases hlookup : entries.lookup name with
      | none =>
        rw [HasRoom, hlookup] at hroom
        exact absurd (hasRoom_emptyDir rest) hroom
      | some child =>
        rw [HasRoom, hlookup, Option.getD_some] at hroom
        rw [put, hlookup, Option.getD_some, ih hroom, putPair_self hlookup]
    | file bytes => rfl
    | link target => rfl

theorem hasRoom_of_get?_put {child : Node} (hchild : (put new place node).get? place = some child) :
    HasRoom place node := by
  by_cases hroom : HasRoom place node
  · exact hroom
  · rw [put_of_not_hasRoom hroom] at hchild
    exact hasRoom_of_get? hchild

/-- A directory on the way may as well be made first. -/
theorem put_put_dir {back : Location} (hfront : node.get? front = none) (new : Node) :
    put new (front ++ back) (put (.dir []) front node) = put new (front ++ back) node := by
  by_cases hroom : HasRoom front node
  · rw [put_append, put_append, get?_put_self hroom, put_put, hfront]
    rfl
  · rw [put_of_not_hasRoom hroom]

/-! ### Links -/

theorem entriesLinkCount_putPair (name : String) (new : Node) (entries : List (String × Node)) :
    entriesLinkCount (putPair name new entries) + ((entries.lookup name).map linkCount).getD 0 =
      entriesLinkCount entries + new.linkCount := by
  induction entries with
  | nil => simp [putPair, entriesLinkCount, entryLinkCount]
  | cons entry rest ih =>
    obtain ⟨first, child⟩ := entry
    rw [List.lookup_cons, putPair]
    by_cases heq : first = name
    · subst heq
      simp only [if_pos, beq_self_eq_true, Option.map_some, Option.getD_some, entriesLinkCount,
        entryLinkCount]
      omega
    · rw [beq_false_of_ne (Ne.symm heq), if_neg heq, entriesLinkCount, entriesLinkCount]
      dsimp only
      omega

/-- What is put counts in place of what was there. -/
theorem linkCount_put_add (new : Node) (hroom : HasRoom place node) :
    (put new place node).linkCount + ((node.get? place).map linkCount).getD 0 =
      node.linkCount + new.linkCount := by
  induction place generalizing node with
  | nil => simp [put, get?, Nat.add_comm]
  | cons name rest ih =>
    cases node with
    | dir entries =>
      rw [put, linkCount, linkCount, get?, Node.entries]
      have hentry := entriesLinkCount_putPair name
        (put new rest ((entries.lookup name).getD (.dir []))) entries
      cases hlookup : entries.lookup name with
      | none =>
        rw [HasRoom, hlookup, Option.getD_none] at hroom
        have hbelow := ih hroom
        have hempty : (((Node.dir []).get? rest).map linkCount).getD 0 = 0 := by
          cases rest <;> simp [get?, Node.entries, linkCount, entriesLinkCount]
        rw [hempty, linkCount, entriesLinkCount] at hbelow
        rw [hlookup, Option.getD_none, Option.map_none, Option.getD_none] at hentry
        rw [Option.bind_none, Option.map_none, Option.getD_none, Option.getD_none]
        omega
      | some child =>
        rw [HasRoom, hlookup, Option.getD_some] at hroom
        have hbelow := ih hroom
        rw [hlookup, Option.getD_some, Option.map_some, Option.getD_some] at hentry
        rw [Option.bind_some, Option.getD_some]
        omega
    | file bytes => exact absurd hroom (by simp [HasRoom])
    | link target => exact absurd hroom (by simp [HasRoom])

theorem linkCount_put (hcount : ((node.get? place).map linkCount).getD 0 = linkCount new)
    (hroom : HasRoom place node) : (put new place node).linkCount = node.linkCount := by
  have hadd := linkCount_put_add new hroom
  omega

/-- Nothing lies below a link. -/
theorem eq_of_get?_link {target : String} (hlink : node.get? place = some (.link target))
    (hother : node.get? other = some old) (hbelow : place <+: other) : other = place := by
  obtain ⟨below, rfl⟩ := hbelow
  rw [get?_append, hlink, Option.bind_some] at hother
  cases below with
  | nil => exact List.append_nil place
  | cons name rest => simp [get?, entries] at hother

/-- Links at different places count one each. -/
theorem length_le_linkCount {places : List Location} (hnodup : places.Nodup)
    (hlinks : ∀ place ∈ places, ∃ target, node.get? place = some (.link target)) :
    places.length ≤ node.linkCount := by
  induction places generalizing node with
  | nil => exact Nat.zero_le _
  | cons place rest ih =>
    obtain ⟨hnotMem, hrest⟩ := List.nodup_cons.mp hnodup
    obtain ⟨target, hlink⟩ := hlinks place List.mem_cons_self
    have hadd := linkCount_put_add (.file []) (hasRoom_of_get? hlink)
    rw [hlink, Option.map_some, Option.getD_some, linkCount, linkCount] at hadd
    -- A file in place of the first link leaves all other links where they are.
    have hothers : ∀ other ∈ rest,
        ∃ target, (put (.file []) place node).get? other = some (.link target) := by
      intro other hother
      obtain ⟨otherTarget, hget⟩ := hlinks other (List.mem_cons_of_mem place hother)
      have hne : other ≠ place := fun heq => hnotMem (heq ▸ hother)
      refine ⟨otherTarget, ?_⟩
      rw [get?_put_of_apart, hget]
      · exact fun hbelow => hne (eq_of_get?_link hlink hget hbelow)
      · exact fun habove => hne (eq_of_get?_link hget hlink habove).symm
    have hfewer := ih hrest hothers
    rw [List.length_cons]
    omega

def IsLinkFree (place : Location) (node : Node) : Prop :=
  ∀ front, front <+: place → ∀ target, node.get? front ≠ some (.link target)

theorem IsLinkFree.of_front (hfree : IsLinkFree place node) (hfront : front <+: place) :
    IsLinkFree front node :=
  fun other hother => hfree other (hother.trans hfront)

theorem linkCount_of_lookup {name : String} {entries : List (String × Node)} {child : Node}
    (hcount : entriesLinkCount entries = 0) (hchild : entries.lookup name = some child) :
    child.linkCount = 0 := by
  induction entries with
  | nil => simp at hchild
  | cons entry rest ih =>
    obtain ⟨first, node⟩ := entry
    rw [entriesLinkCount, entryLinkCount, Nat.add_eq_zero_iff] at hcount
    rw [List.lookup_cons] at hchild
    split at hchild
    · exact Option.some.inj hchild ▸ hcount.1
    · exact ih hcount.2 hchild

theorem linkCount_of_get? {child : Node} (hcount : node.linkCount = 0)
    (hchild : node.get? place = some child) : child.linkCount = 0 := by
  induction place generalizing node with
  | nil => exact Option.some.inj hchild ▸ hcount
  | cons name rest ih =>
    obtain ⟨next, hlookup, hget⟩ := Option.bind_eq_some_iff.mp hchild
    cases node with
    | dir entries => exact ih (linkCount_of_lookup hcount hlookup) hget
    | file bytes => simp [entries] at hlookup
    | link target => simp [entries] at hlookup

theorem isLinkFree_of_linkCount (hcount : node.linkCount = 0) (place : Location) :
    IsLinkFree place node := by
  intro front _ target hlink
  have hzero := linkCount_of_get? hcount hlink
  simp [linkCount] at hzero

/-- What neither is nor replaces links leaves all links where they are. -/
theorem get?_put_eq_link_iff (hnew : ∀ below target, new.get? below ≠ some (.link target))
    (hold : ∀ below target, node.get? (place ++ below) ≠ some (.link target)) (other : Location)
    (target : String) :
    (put new place node).get? other = some (.link target) ↔
      node.get? other = some (.link target) := by
  by_cases hroom : HasRoom place node
  · by_cases hbelow : place <+: other
    · obtain ⟨below, rfl⟩ := hbelow
      rw [get?_append, get?_put_self hroom, Option.bind_some]
      exact iff_of_false (hnew below target) (hold below target)
    · by_cases habove : other <+: place
      · obtain ⟨back, rfl⟩ := habove
        have hback : back ≠ [] := fun hnil => hbelow (by simp [hnil])
        obtain ⟨entries, hdir⟩ :
            ∃ entries, (put new (other ++ back) node).get? other = some (.dir entries) :=
          exists_dir_get?_put hback hroom
        refine iff_of_false (by simp [hdir]) fun hlink => ?_
        obtain ⟨_, hcontra⟩ := exists_dir_of_hasRoom hback hroom hlink
        exact Node.noConfusion hcontra
      · rw [get?_put_of_apart hbelow habove]
  · rw [put_of_not_hasRoom hroom]

theorem get?_file_ne_link (bytes : List UInt8) (below : Location) (target : String) :
    (Node.file bytes).get? below ≠ some (.link target) := by
  cases below <;> simp [get?, entries]

theorem get?_emptyDir_ne_link (below : Location) (target : String) :
    (Node.dir []).get? below ≠ some (.link target) := by
  cases below <;> simp [get?, entries]

theorem get?_append_ne_link {content : Option (List UInt8)}
    (hcontent : node.get? place = content.map .file) (below : Location) (target : String) :
    node.get? (place ++ below) ≠ some (.link target) := by
  rw [get?_append, hcontent]
  cases content with
  | none => simp
  | some bytes => exact get?_file_ne_link bytes below target

end Storage.Node

end EnvFill
