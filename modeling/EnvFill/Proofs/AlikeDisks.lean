import EnvFill.Proofs.AlikeTrees
import EnvFill.Proofs.Matching

/-!
# Disks that differ in values

Where two disks differ in values only, a path leads to the same place of both, and what lies there is the
same but for values. So the search for folders finds the same ones.
-/

namespace EnvFill.Storage

open Node EnvFile

structure AlikeDisks (disk other : Disk) : Prop where
  current : disk.current = other.current
  trees : AlikeTrees none disk.top other.top
  names : HasProperNames disk.top
  names_other : HasProperNames other.top

def FoundAt (disk other : Disk) (path : Pathname) (child twin : Node) : Prop :=
  ∃ place, disk.locate? path = .ok place ∧ disk.top.get? place = some child ∧
    other.top.get? place = some twin

def SameContent (one two : List UInt8) : Prop := one = two ∨ SameKeys one two

theorem AlikeNodes.isDir_eq {name : Option String} {one two : Node}
    (hsame : AlikeNodes name one two) : one.isDir = two.isDir := by
  cases hsame <;> rfl

theorem AlikeNodes.bytes? {name : Option String} {one two : Node} (hsame : AlikeNodes name one two) :
    Option.Rel SameContent one.bytes? two.bytes? := by
  cases hsame with
  | dir => exact .none
  | link => exact .none
  | file => exact .some (.inl rfl)
  | settings hname hfile hsame => exact .some (.inr hsame)

theorem AlikeNodes.bytes?_eq {name : String} {one two : Node}
    (hsame : AlikeNodes (some name) one two) (hname : name ∉ Name.writableFiles) :
    one.bytes? = two.bytes? := by
  cases hsame with
  | dir => rfl
  | link => rfl
  | file => rfl
  | settings heq hfile =>
    obtain rfl := Option.some.inj heq
    exact absurd hfile hname

theorem isSome_eq_of_rel {α β : Type} {R : α → β → Prop} {one : Option α} {two : Option β}
    (hrel : Option.Rel R one two) : one.isSome = two.isSome := by
  cases hrel <;> rfl

namespace AlikeDisks

variable {disk other : Disk} {place : Location} {child twin : Node} {path : Pathname}

theorem symm (halike : AlikeDisks disk other) : AlikeDisks other disk :=
  ⟨halike.current.symm, halike.trees.symm, halike.names_other, halike.names⟩

variable (halike : AlikeDisks disk other)

include halike

theorem locate?_eq (path : Pathname) : disk.locate? path = other.locate? path := by
  unfold Disk.locate? Disk.startOf
  rw [halike.current]
  refine bind_congr fun _ => ?_
  exact halike.trees.sameShape.locateFrom?_eq _ _ _

theorem findPlace_eq (path : Pathname) : disk.findPlace path = other.findPlace path := by
  unfold Disk.findPlace
  rw [halike.locate?_eq]

theorem resolve_eq (path : Pathname) : disk.resolve path = other.resolve path := by
  have hsteps : resolveFrom disk.top disk.top.linkCount [] (disk.startOf path) path.parts =
      resolveFrom other.top other.top.linkCount [] (other.startOf path) path.parts := by
    rw [← halike.trees.linkCount_eq halike.names halike.names_other, Disk.startOf, Disk.startOf,
      halike.current]
    exact (resolveFrom_congr (fun here target => halike.trees.sameShape.get?_eq_link_iff target) _ _ _ _).symm
  unfold Disk.resolve
  rw [hsteps]
  simp only [halike.locate?_eq]

theorem below (hone : disk.top.get? place = some child) (htwo : other.top.get? place = some twin) :
    AlikeTrees place.getLast? child twin ∧ HasProperNames child ∧ HasProperNames twin := by
  refine ⟨?_, halike.names.of_holds (holds_of_get? hone), ?_⟩
  · have hbelow := halike.trees.below hone htwo
    rwa [Option.or_none] at hbelow
  · exact halike.names_other.of_holds (holds_of_get? htwo)

theorem alikeNodes (hone : disk.top.get? place = some child)
    (htwo : other.top.get? place = some twin) : AlikeNodes place.getLast? child twin := by
  obtain ⟨found, hfound, hsame⟩ := halike.trees.exists_twin hone
  rw [Option.or_none] at hsame
  rwa [← Option.some.inj (hfound.symm.trans htwo)]

theorem find (path : Pathname) :
    Matching (Option.Rel (FoundAt disk other path)) (disk.find path) (other.find path) := by
  unfold Disk.find
  rw [← halike.findPlace_eq]
  cases hfound : disk.findPlace path with
  | error fault => exact .error fault
  | ok found =>
    cases found with
    | none => exact .ok .none
    | some place =>
      have hlocate := Disk.findPlace_eq_some_iff.mp hfound
      have htrees := halike.trees place
      refine .ok ?_
      dsimp only [Option.bind_some]
      cases hone : disk.top.get? place with
      | none =>
        rw [hone] at htrees
        generalize other.top.get? place = there at htrees
        cases htrees
        exact .none
      | some child =>
        obtain ⟨twin, htwin, -⟩ := halike.trees.exists_twin hone
        rw [htwin]
        exact .some ⟨place, hlocate, hone, htwin⟩

theorem exists?_eq (path : Pathname) : disk.exists? path = other.exists? path :=
  matching_eq_iff.mp ((halike.find path).map fun _ _ hrel => isSome_eq_of_rel hrel)

theorem isDir_eq (path : Pathname) : disk.isDir path = other.isDir path := by
  refine matching_eq_iff.mp ((halike.find path).map fun _ _ hrel => ?_)
  cases hrel with
  | none => rfl
  | some hfound =>
    obtain ⟨place, -, hone, htwo⟩ := hfound
    exact (halike.alikeNodes hone htwo).isDir_eq

theorem bytes? (path : Pathname) :
    Matching (Option.Rel SameContent) (disk.bytes? path) (other.bytes? path) := by
  refine (halike.find path).map fun _ _ hrel => ?_
  cases hrel with
  | none => exact .none
  | some hfound =>
    obtain ⟨place, -, hone, htwo⟩ := hfound
    exact (halike.alikeNodes hone htwo).bytes?

theorem isFile_eq (path : Pathname) : disk.isFile path = other.isFile path :=
  matching_eq_iff.mp ((halike.bytes? path).map fun _ _ hrel => isSome_eq_of_rel hrel)

end AlikeDisks

end EnvFill.Storage

namespace EnvFill.Project

open Storage Node EnvFile Fill Ignore Text

variable {disk other : Disk} {folder : Location} {path : Pathname} {maxDepth : Int}

theorem searchedPlaces_eq {name : Option String} {one two : Node} (hsame : AlikeTrees name one two)
    (hone : HasProperNames one) (htwo : HasProperNames two) :
    searchedPlaces (some one) maxDepth = searchedPlaces (some two) maxDepth := by
  have hwalk : (walkFrom (isSearched maxDepth) [] one).flatMap (fun visit => [visit.path]) =
      (walkFrom (isSearched maxDepth) [] two).flatMap fun visit => [visit.path] :=
    hsame.flatMap_walkFrom hone htwo fun _ _ _ _ _ _ _ _ => rfl
  rw [← List.map_eq_flatMap, ← List.map_eq_flatMap] at hwalk
  cases hsame [] with
  | some htop =>
    cases htop with
    | dir => exact hwalk
    | link => rfl
    | file => rfl
    | settings => rfl

theorem markersIn_eq (halike : AlikeDisks disk other) (folder : Pathname) :
    markersIn disk folder = markersIn other folder := by
  unfold markersIn
  congr 1
  funext name
  rw [halike.isFile_eq]

theorem discover_eq (halike : AlikeDisks disk other) (root : Pathname) (maxDepth : Int) :
    discover disk root maxDepth = discover other root maxDepth := by
  have hfolder : folderAt? disk = folderAt? other := by
    funext root path
    unfold folderAt?
    rw [markersIn_eq halike]
  unfold discover
  rw [halike.resolve_eq, hfolder]
  refine bind_congr fun place => ?_
  refine ite_congr rfl (fun _ => rfl) fun _ => ?_
  refine matching_eq_iff.mp ((halike.find _).followed.bind fun one two hrel => ?_)
  cases hrel with
  | none => exact matching_eq_iff.mpr rfl
  | some hfound =>
    obtain ⟨place, -, hone, htwo⟩ := hfound
    obtain ⟨htrees, hnames, hothers⟩ := halike.below hone htwo
    rw [searchedPlaces_eq htrees hnames hothers]
    exact matching_eq_iff.mpr rfl

end EnvFill.Project
