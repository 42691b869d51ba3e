import EnvFill.Proofs.CodeScans

/-!
# Disks that differ in the contents of files

Where a path leads does not depend on what the files hold. So it leads to the same place on the disk with
every file emptied, and on any two disks that are the same once their files are emptied.
-/

namespace EnvFill.Storage

namespace Node

mutual

def emptied : Node → Node
  | .file _ => .file []
  | .link target => .link target
  | .dir entries => .dir (emptiedEntries entries)

def emptiedEntries : List (String × Node) → List (String × Node)
  | [] => []
  | entry :: rest => emptiedEntry entry :: emptiedEntries rest

def emptiedEntry : String × Node → String × Node
  | (name, node) => (name, emptied node)

end

variable {name : String}

theorem entries_emptied (node : Node) : node.emptied.entries = emptiedEntries node.entries := by
  cases node <;> rfl

theorem isDir_emptied (node : Node) : node.emptied.isDir = node.isDir := by
  cases node <;> rfl

theorem lookup_emptiedEntries (entries : List (String × Node)) :
    (emptiedEntries entries).lookup name = (entries.lookup name).map emptied := by
  induction entries with
  | nil => rfl
  | cons entry rest ih =>
    obtain ⟨first, child⟩ := entry
    rw [emptiedEntries, emptiedEntry, List.lookup_cons, List.lookup_cons, ih]
    split <;> rfl

theorem get?_emptied (place : Location) (node : Node) :
    node.emptied.get? place = (node.get? place).map emptied := by
  induction place generalizing node with
  | nil => rfl
  | cons name rest ih =>
    rw [get?, get?, entries_emptied, lookup_emptiedEntries, Option.bind_map, Option.map_bind]
    exact Option.bind_congr fun child _ => ih child

theorem linkCount_emptied (node : Node) : node.emptied.linkCount = node.linkCount := by
  induction node using Node.tree_induction with
  | hfile bytes => rfl
  | hlink target => rfl
  | hdir entries ih =>
    change entriesLinkCount (emptiedEntries entries) = entriesLinkCount entries
    induction entries with
    | nil => rfl
    | cons entry rest ihrest =>
      obtain ⟨name, child⟩ := entry
      rw [emptiedEntries, emptiedEntry, entriesLinkCount, entriesLinkCount, entryLinkCount, entryLinkCount,
        ih _ List.mem_cons_self, ihrest fun other hother => ih other (List.mem_cons_of_mem _ hother)]

end Node

open Node

theorem sameShape_emptied (top : Node) : SameShape top.emptied top := by
  intro place
  rw [get?_emptied]
  cases top.get? place with
  | none => exact .none
  | some node =>
    cases node with
    | file bytes => exact .some (.file [] bytes)
    | link target => exact .some (.link target)
    | dir entries => exact .some (.dir (emptiedEntries entries) entries)

namespace Disk

def emptied (disk : Disk) : Disk := { disk with top := disk.top.emptied }

theorem locate?_emptied (disk : Disk) (path : Pathname) : disk.emptied.locate? path = disk.locate? path :=
  bind_congr fun _ => (sameShape_emptied disk.top).locateFrom?_eq maxLinks (disk.startOf path) path.parts

theorem resolve_emptied (disk : Disk) (path : Pathname) : disk.emptied.resolve path = disk.resolve path := by
  have hlinks : ∀ here target, disk.top.emptied.get? here = some (.link target) ↔
      disk.top.get? here = some (.link target) :=
    fun _ target => ((sameShape_emptied disk.top).get?_eq_link_iff target).symm
  have hfollowed : resolveFrom disk.emptied.top disk.emptied.top.linkCount [] (disk.emptied.startOf path)
      path.parts = resolveFrom disk.top disk.top.linkCount [] (disk.startOf path) path.parts := by
    change resolveFrom disk.top.emptied disk.top.emptied.linkCount [] (disk.startOf path) path.parts = _
    rw [linkCount_emptied, resolveFrom_congr hlinks]
  unfold Disk.resolve
  dsimp only
  rw [hfollowed, locate?_emptied]

theorem isDir_emptied (disk : Disk) (path : Pathname) : disk.emptied.isDir path = disk.isDir path := by
  have hfind : disk.emptied.findPlace path = disk.findPlace path := by
    unfold Disk.findPlace
    rw [locate?_emptied]
  have hdir : ∀ place, (disk.emptied.top.get? place).any Node.isDir =
      (disk.top.get? place).any Node.isDir := by
    intro place
    change (disk.top.emptied.get? place).any Node.isDir = _
    rw [get?_emptied, Option.any_map]
    exact congrArg (Option.any · _) (funext Node.isDir_emptied)
  unfold Disk.isDir Disk.find
  rw [hfind]
  cases disk.findPlace path with
  | error cause => rfl
  | ok found =>
    cases found with
    | none => rfl
    | some place => exact congrArg Except.ok (hdir place)

section Same

variable {disk other : Disk} (hsame : other.emptied = disk.emptied) (path : Pathname)

include hsame

theorem locate?_eq_of_emptied_eq : other.locate? path = disk.locate? path := by
  rw [← locate?_emptied, hsame, locate?_emptied]

theorem resolve_eq_of_emptied_eq : other.resolve path = disk.resolve path := by
  rw [← resolve_emptied, hsame, resolve_emptied]

theorem isDir_eq_of_emptied_eq : other.isDir path = disk.isDir path := by
  rw [← isDir_emptied, hsame, isDir_emptied]

end Same

end Disk

end EnvFill.Storage

namespace EnvFill.Project

open Storage Node

variable {disk other : Disk} {path : Pathname} {root : Location} {node : Node}

/-- A scan begins at the same place on disks that differ in the contents of files. -/
theorem exists_scanRoot_of_emptied_eq (hsame : other.emptied = disk.emptied)
    (hroot : scanRoot disk path = .ok (root, node)) : ∃ twin, scanRoot other path = .ok (root, twin) := by
  obtain ⟨place, hplace, hlocate, hget, hdir⟩ := scanRoot_returns_iff.mp hroot
  have htop : other.top.emptied = disk.top.emptied := congrArg Disk.top hsame
  have htwin : (other.top.get? root).map emptied = some node.emptied := by
    rw [← get?_emptied, htop, get?_emptied, hget]
    rfl
  obtain ⟨twin, hfound, htwin⟩ := Option.map_eq_some_iff.mp htwin
  have htwinDir : twin.isDir = true := by
    rw [← Node.isDir_emptied, htwin, Node.isDir_emptied, hdir]
  exact ⟨twin, scanRoot_returns_iff.mpr ⟨place, (Disk.resolve_eq_of_emptied_eq hsame path).trans hplace,
    (Disk.locate?_eq_of_emptied_eq hsame _).trans hlocate, hfound, htwinDir⟩⟩

end EnvFill.Project
