import EnvFill.Proofs.PrunedWalks
import EnvFill.Proofs.SameKeys

/-!
# Trees that differ in values

Two trees may differ in the values that some of their settings files give, and in nothing else. Every
path then leads to the same place of both, and a walk through one goes through the other.
-/

namespace EnvFill.Storage

open Node EnvFile

/-- What may lie at one place, under the given name, of two trees that differ in values. -/
inductive AlikeNodes (name : Option String) : Node → Node → Prop where
  | dir (entries others : List (String × Node)) : AlikeNodes name (.dir entries) (.dir others)
  | link (target : String) : AlikeNodes name (.link target) (.link target)
  | file (bytes : List UInt8) : AlikeNodes name (.file bytes) (.file bytes)
  | settings {file : String} {one two : List UInt8} (hname : name = some file)
      (hfile : file ∈ Name.writableFiles) (hsame : SameKeys one two) :
      AlikeNodes name (.file one) (.file two)

/-- The trees differ in values only. The name is that of their tops, if they have one. -/
def AlikeTrees (name : Option String) (one two : Node) : Prop :=
  ∀ place : Location, Option.Rel (AlikeNodes (place.getLast?.or name)) (one.get? place) (two.get? place)

/-- The entries of every directory have names of their own, none of which is a dot or two. -/
def HasProperNames (node : Node) : Prop :=
  ∀ below entries, node.Holds below (.dir entries) →
    (entries.map Prod.fst).Nodup ∧ ∀ entry ∈ entries, IsName entry.1

section Trees

variable {name : Option String} {top other one two node : Node} {place path : Location}
  {entries others : List (String × Node)} {links : Nat} {steps : List String} {child twin : Node}
  {β : Type}

theorem HasProperNames.of_holds (hnames : HasProperNames node) (hchild : node.Holds place child) :
    HasProperNames child := by
  intro below entries hbelow
  refine hnames (place ++ below) entries ?_
  induction hchild with
  | here => exact hbelow
  | into hentry _ ih => exact .into hentry (ih (fun b e h => hnames _ _ (.into hentry h)) hbelow)

theorem isName_of_holds (hnames : HasProperNames node) (hchild : node.Holds place child) :
    ∀ name ∈ place, IsName name := by
  induction hchild with
  | here => simp
  | @into entries name next child path hentry hpath ih =>
    have hname : IsName name := (hnames [] entries (.here _)).2 _ hentry
    exact List.forall_mem_cons.mpr ⟨hname, ih (hnames.of_holds (.into hentry (.here _)))⟩

theorem holds_of_get? (hget : node.get? place = some child) : node.Holds place child := by
  induction place generalizing node with
  | nil => exact Option.some.inj hget ▸ .here _
  | cons first rest ih =>
    obtain ⟨next, hnext, hrest⟩ := Option.bind_eq_some_iff.mp hget
    cases node with
    | dir entries => exact .into (mem_of_lookup hnext) (ih hrest)
    | file bytes => simp [Node.entries] at hnext
    | link target => simp [Node.entries] at hnext

/-- Names of their own are found as they stand. -/
theorem lookup_eq_some_iff {key : String} (hnodup : (entries.map Prod.fst).Nodup) :
    entries.lookup key = some child ↔ (key, child) ∈ entries := by
  refine ⟨mem_of_lookup, fun hentry => ?_⟩
  obtain ⟨front, back, rfl⟩ := List.append_of_mem hentry
  rw [List.lookup_eq_some_iff]
  refine ⟨front, back, rfl, fun entry hfront => ?_⟩
  rw [List.map_append, List.map_cons, List.nodup_middle, List.nodup_cons] at hnodup
  have hne : key ≠ entry.1 := by
    intro hkey
    exact hnodup.1 (List.mem_append_left _ (List.mem_map.mpr ⟨entry, hfront, hkey.symm⟩))
  simpa using hne

theorem AlikeTrees.nodes (halike : AlikeTrees name one two) : AlikeNodes name one two := by
  cases halike [] with
  | some hsame => exact hsame

theorem AlikeTrees.below (halike : AlikeTrees name one two) (hone : one.get? place = some child)
    (htwo : two.get? place = some twin) : AlikeTrees (place.getLast?.or name) child twin := by
  intro below
  have hbelow := halike (place ++ below)
  rwa [get?_append, get?_append, hone, htwo, List.getLast?_append, Option.or_assoc] at hbelow

theorem AlikeTrees.exists_twin (halike : AlikeTrees name one two)
    (hone : one.get? place = some child) :
    ∃ twin, two.get? place = some twin ∧ AlikeNodes (place.getLast?.or name) child twin :=
  exists_some_of_rel (halike place) hone

theorem AlikeNodes.sameKind (hsame : AlikeNodes name one two) : SameKind one two := by
  cases hsame with
  | dir entries others => exact .dir entries others
  | link target => exact .link target
  | file bytes => exact .file bytes bytes
  | settings => exact .file _ _

theorem AlikeTrees.sameShape (halike : AlikeTrees name one two) : SameShape one two := by
  intro place
  have hplace := halike place
  generalize one.get? place = here at hplace ⊢
  generalize two.get? place = there at hplace ⊢
  cases hplace with
  | none => exact .none
  | some hsame => exact .some hsame.sameKind

theorem AlikeTrees.lookup (halike : AlikeTrees name (.dir entries) (.dir others)) {key : String}
    (hchild : entries.lookup key = some child) :
    ∃ twin, others.lookup key = some twin ∧ AlikeTrees (some key) child twin := by
  have hone : (Node.dir entries).get? [key] = some child := by
    rw [get?, Node.entries, hchild]
    rfl
  obtain ⟨twin, htwin, -⟩ := halike.exists_twin hone
  refine ⟨twin, ?_, halike.below hone htwin⟩
  obtain ⟨found, hfound, hget⟩ := Option.bind_eq_some_iff.mp htwin
  exact hfound.trans hget

theorem AlikeNodes.symm {one two : Node} (hsame : AlikeNodes name one two) : AlikeNodes name two one := by
  cases hsame with
  | dir => exact .dir _ _
  | link => exact .link _
  | file => exact .file _
  | settings hname hfile hsame => exact .settings hname hfile hsame.symm

theorem AlikeTrees.symm (halike : AlikeTrees name one two) : AlikeTrees name two one := by
  intro place
  have hplace := halike place
  generalize one.get? place = here at hplace ⊢
  generalize two.get? place = there at hplace ⊢
  cases hplace with
  | none => exact .none
  | some hsame => exact .some hsame.symm

/-- What is asked of every entry and answered alike is the same for both directories, in some order. -/
theorem AlikeTrees.perm_map (halike : AlikeTrees name (.dir entries) (.dir others))
    (hentries : (entries.map Prod.fst).Nodup) (hothers : (others.map Prod.fst).Nodup)
    {f g : String × Node → β}
    (hsame : ∀ key child twin, (key, child) ∈ entries → (key, twin) ∈ others →
      AlikeTrees (some key) child twin → f (key, child) = g (key, twin)) :
    (entries.map fun entry => (entry.1, f entry)).Perm
      (others.map fun entry => (entry.1, g entry)) := by
  have hnodup : ∀ (list : List (String × Node)) (h : String × Node → β),
      (list.map Prod.fst).Nodup → (list.map fun entry => (entry.1, h entry)).Nodup := by
    intro list h hlist
    apply List.Nodup.of_map Prod.fst
    rwa [List.map_map]
  refine (List.perm_ext_iff_of_nodup (hnodup _ f hentries) (hnodup _ g hothers)).mpr fun answer => ?_
  rw [List.mem_map, List.mem_map]
  constructor
  · rintro ⟨⟨key, child⟩, hentry, rfl⟩
    obtain ⟨twin, htwin, hchild⟩ := halike.lookup ((lookup_eq_some_iff hentries).mpr hentry)
    have hother := mem_of_lookup htwin
    refine ⟨(key, twin), hother, ?_⟩
    rw [hsame key child twin hentry hother hchild]
  · rintro ⟨⟨key, twin⟩, hother, rfl⟩
    obtain ⟨child, hchild, htwin⟩ := halike.symm.lookup ((lookup_eq_some_iff hothers).mpr hother)
    have hentry := mem_of_lookup hchild
    refine ⟨(key, child), hentry, ?_⟩
    rw [hsame key child twin hentry hother htwin.symm]

theorem pairwise_byName (pairs : List (String × β)) :
    (Sorted.byName pairs).Pairwise fun a b => a.1 ≤ b.1 := by
  have hsorted : (Sorted.byName pairs).Pairwise fun a b => decide (a.1 ≤ b.1) = true := by
    apply List.pairwise_mergeSort
    · intro a b c hab hbc
      simp only [decide_eq_true_eq] at hab hbc ⊢
      exact le_trans hab hbc
    · intro a b
      simpa using le_total a.1 b.1
  exact hsorted.imp of_decide_eq_true

theorem byName_congr {pairs pairs' : List (String × β)} (hnodup : (pairs.map Prod.fst).Nodup)
    (hperm : pairs.Perm pairs') : Sorted.byName pairs = Sorted.byName pairs' := by
  have hall : (Sorted.byName pairs).Perm (Sorted.byName pairs') :=
    (List.mergeSort_perm _ _).trans (hperm.trans (List.mergeSort_perm _ _).symm)
  refine List.Perm.eq_of_pairwise ?_ (pairwise_byName pairs) (pairwise_byName pairs') hall
  intro a b ha hb hab hba
  rw [mem_byName] at ha hb
  exact List.inj_on_of_nodup_map hnodup ha (hperm.mem_iff.mpr hb) (le_antisymm hab hba)

/-- A question to all entries by name has the same answers in both directories. -/
theorem AlikeTrees.flatMap_byName (halike : AlikeTrees name (.dir entries) (.dir others))
    (hentries : (entries.map Prod.fst).Nodup) (hothers : (others.map Prod.fst).Nodup)
    {f g : String × Node → List β}
    (hsame : ∀ key child twin, (key, child) ∈ entries → (key, twin) ∈ others →
      AlikeTrees (some key) child twin → f (key, child) = g (key, twin)) :
    (Sorted.byName entries).flatMap f = (Sorted.byName others).flatMap g := by
  have hperm := halike.perm_map hentries hothers hsame
  have hnodup : ((entries.map fun entry => (entry.1, f entry)).map Prod.fst).Nodup := by
    rwa [List.map_map]
  have hanswers : ∀ (list : List (String × Node)) (h : String × Node → List β),
      (Sorted.byName list).flatMap h =
        (Sorted.byName (list.map fun entry => (entry.1, h entry))).flatMap Prod.snd := by
    intro list h
    have hsorted := @byName_map _ _ (fun entry => (entry.1, h entry)) (fun _ => rfl) list
    rw [hsorted, List.flatMap_map]
  rw [hanswers, hanswers, byName_congr hnodup hperm]

/-- **A walk through one is a walk through the other.** -/
theorem AlikeTrees.flatMap_walkFrom (halike : AlikeTrees name one two)
    (hone : HasProperNames one) (htwo : HasProperNames two) {enters : Location → Bool}
    {gives gives' : Visit → List β}
    (hgives : ∀ place name entries others, ⟨place, entries⟩ ∈ walkFrom enters path one →
      AlikeTrees name (.dir entries) (.dir others) → HasProperNames (.dir entries) →
        HasProperNames (.dir others) → gives ⟨place, entries⟩ = gives' ⟨place, others⟩) :
    (walkFrom enters path one).flatMap gives = (walkFrom enters path two).flatMap gives' := by
  induction one using Node.tree_induction generalizing two path name with
  | hfile bytes =>
    cases halike.nodes with
    | file => rw [walkFrom]; rfl
    | settings => rw [walkFrom, walkFrom]; rfl
  | hlink target =>
    cases halike.nodes
    rw [walkFrom]
    rfl
  | hdir entries ih =>
    cases halike.nodes with
    | dir _ others =>
      have hhere : ⟨path, entries⟩ ∈ walkFrom enters path (.dir entries) :=
        mem_walkFrom_dir_iff.mpr (.inl rfl)
      rw [flatMap_walkFrom_dir, flatMap_walkFrom_dir,
        hgives path name entries others hhere halike hone htwo]
      congr 1
      apply halike.flatMap_byName (hone _ _ (.here _)).1 (htwo _ _ (.here _)).1
      intro key child twin hentry hother hchild
      dsimp only
      split
      · rename_i henters
        apply ih (key, child) hentry hchild (hone.of_holds (.into hentry (.here _)))
          (htwo.of_holds (.into hother (.here _)))
        intro place name inner others hvisit
        exact hgives place name inner others
          (mem_walkFrom_dir_iff.mpr (.inr ⟨_, hentry, henters, hvisit⟩))
      · rfl

/-- Both trees have the same number of links. -/
theorem AlikeTrees.linkCount_eq (halike : AlikeTrees name one two) (hone : HasProperNames one)
    (htwo : HasProperNames two) : one.linkCount = two.linkCount := by
  have hsum : ∀ entries : List (String × Node), entriesLinkCount entries =
      ((entries.map fun entry => (entry.1, entry.2.linkCount)).map Prod.snd).sum := by
    intro entries
    induction entries with
    | nil => rfl
    | cons entry rest ih =>
      obtain ⟨key, child⟩ := entry
      rw [entriesLinkCount, ih, entryLinkCount]
      rfl
  induction one using Node.tree_induction generalizing two name with
  | hfile bytes =>
    cases halike.nodes with
    | file => rfl
    | settings => rw [linkCount, linkCount]
  | hlink target =>
    cases halike.nodes
    rfl
  | hdir entries ih =>
    cases halike.nodes with
    | dir _ others =>
      rw [linkCount, linkCount, hsum, hsum]
      apply List.Perm.sum_eq
      apply List.Perm.map
      apply halike.perm_map (hone _ _ (.here _)).1 (htwo _ _ (.here _)).1
      intro key child twin hentry hother hchild
      exact ih (key, child) hentry hchild (hone.of_holds (.into hentry (.here _)))
        (htwo.of_holds (.into hother (.here _)))

theorem AlikeNodes.refl (name : Option String) (node : Node) : AlikeNodes name node node := by
  cases node with
  | dir entries => exact .dir entries entries
  | link target => exact .link target
  | file bytes => exact .file bytes

theorem AlikeTrees.refl (name : Option String) (node : Node) : AlikeTrees name node node := by
  intro place
  cases node.get? place with
  | none => exact .none
  | some child => exact .some (AlikeNodes.refl _ child)

theorem alikeTrees_file {name : Option String} {one two : List UInt8}
    (hsame : AlikeNodes name (.file one) (.file two)) : AlikeTrees name (.file one) (.file two) := by
  intro place
  cases place with
  | nil => exact .some hsame
  | cons first rest => exact .none

theorem alikeTrees_cons {name : Option String} {key : String} {child twin : Node}
    {entries others : List (String × Node)} (hchild : AlikeTrees (some key) child twin)
    (hrest : AlikeTrees name (.dir entries) (.dir others)) :
    AlikeTrees name (.dir ((key, child) :: entries)) (.dir ((key, twin) :: others)) := by
  intro place
  cases place with
  | nil => exact .some (.dir _ _)
  | cons first rest =>
    by_cases hfirst : first = key
    · subst hfirst
      have hlast : (first :: rest).getLast?.or name = rest.getLast?.or (some first) := by
        rw [List.getLast?_cons]
        cases rest.getLast? <;> rfl
      rw [hlast, get?, get?, Node.entries, Node.entries, List.lookup_cons_self, List.lookup_cons_self]
      exact hchild rest
    · have hlater := hrest (first :: rest)
      have hskip : ∀ (node : Node) (list : List (String × Node)),
          (Node.dir ((key, node) :: list)).get? (first :: rest) =
            (Node.dir list).get? (first :: rest) := by
        intro node list
        rw [get?, get?, Node.entries, Node.entries, List.lookup_cons, beq_false_of_ne hfirst]
      rwa [hskip, hskip]

theorem hasProperNames_file (bytes : List UInt8) : HasProperNames (.file bytes) := by
  intro below entries hheld
  cases hheld

theorem hasProperNames_dir {entries : List (String × Node)} (hnodup : (entries.map Prod.fst).Nodup)
    (hentries : ∀ entry ∈ entries, IsName entry.1 ∧ HasProperNames entry.2) :
    HasProperNames (.dir entries) := by
  intro below inner hheld
  cases hheld with
  | here => exact ⟨hnodup, fun entry hentry => (hentries entry hentry).1⟩
  | into hentry hpath => exact (hentries _ hentry).2 _ _ hpath

end Trees

end EnvFill.Storage
