import EnvFill.Proofs.DirectoryPatterns
import EnvFill.Proofs.PrunedWalks

/-!
# Folders that are skipped

The search for folders goes by the names of directories, and a scan through code by patterns on their
whole paths. Both skip the same directories, but for the hidden ones, which the search skips as well.
-/

namespace EnvFill.Project

open Storage Ignore

variable {disk : Disk} {path : Pathname} {root : Location} {node : Node} {filter : ScanFilter}
  {maxDepth : Int}

def isVisible (path : Location) : Bool := path.all fun name => name.toList.head? != some '.'

def HasCleanNames (node : Node) : Prop :=
  ∀ below child, node.Holds below child → ∀ name ∈ below, IsClean name

theorem isSearched_concat_iff {place : Location} {name : String} :
    isSearched maxDepth (place ++ [name]) = true ↔ isWithin maxDepth (place ++ [name]) = true ∧
      name ∉ skippedDirectories ∧ name.toList.head? ≠ some '.' := by
  simp [isSearched, isWithin]

theorem isVisible_of_mem_walkFrom {visit : Visit}
    (hvisit : visit ∈ walkFrom (isSearched maxDepth) [] node) : isVisible visit.path = true := by
  obtain ⟨below, hpath, -, hsearched⟩ := mem_walkFrom_iff.mp hvisit
  rw [List.nil_append] at hpath
  rw [isVisible, List.all_eq_true, hpath]
  intro name hname
  obtain ⟨front, back, rfl⟩ := List.append_of_mem hname
  have hentered := hsearched (front ++ [name]) (by simp) ⟨back, by simp⟩
  simpa using (isSearched_concat_iff.mp hentered).2.2

theorem flatMap_keep {p : Visit → Bool} (visits : List Visit) :
    (visits.flatMap fun visit => [visit].filter p) = visits.filter p := by
  rw [← List.filter_flatMap, List.flatMap_singleton']

def IsKept (path : Location) : Prop := ∀ name ∈ path, IsClean name ∧ name ∉ skippedDirectories

theorem isEntered_concat_iff {place : Location} {name : String} (hbuild : ScanFilter.build [] = .ok filter)
    (hplace : IsKept place) (hname : IsClean name) :
    isEntered filter maxDepth (place ++ [name]) = true ↔
      isWithin maxDepth (place ++ [name]) = true ∧ name ∉ skippedDirectories := by
  have hclean : ∀ other ∈ place ++ [name], IsClean other :=
    List.forall_mem_append.mpr
      ⟨fun other hother => (hplace other hother).1, List.forall_mem_singleton.mpr hname⟩
  have hignored : filter.ignoresDirectory (.ofRoot []) ⟨.current, place ++ [name]⟩ = true ↔
      name ∈ skippedDirectories := by
    rw [ignoresDirectory_standard_iff hbuild (by simp) hclean .relative]
    constructor
    · rintro ⟨other, hother, hskipped⟩
      rcases List.mem_append.mp hother with hother | hother
      · exact absurd hskipped (hplace other hother).2
      · rwa [← List.mem_singleton.mp hother]
    · exact fun hskipped => ⟨name, by simp, hskipped⟩
  rw [isEntered, Bool.and_eq_true, Bool.not_eq_true', ← Bool.not_eq_true, hignored, isWithin]

/-- The search for folders is the walk of a scan without the hidden directories. -/
theorem walkFrom_isSearched_eq (hbuild : ScanFilter.build [] = .ok filter) (hnames : HasCleanNames node) :
    walkFrom (isSearched maxDepth) [] node =
      (walkFrom (isEntered filter maxDepth) [] node).filter fun visit => isVisible visit.path := by
  have hvisible : (walkFrom (isSearched maxDepth) [] node).filter (fun visit => isVisible visit.path) =
      walkFrom (isSearched maxDepth) [] node :=
    List.filter_eq_self.mpr fun visit hvisit => isVisible_of_mem_walkFrom hvisit
  have hinto : ∀ place name, IsClean name → IsKept place → isSearched maxDepth (place ++ [name]) = true →
      isEntered filter maxDepth (place ++ [name]) = true ∧ IsKept (place ++ [name]) := by
    intro place name hname hplace hsearched
    obtain ⟨hwithin, hkept, -⟩ := isSearched_concat_iff.mp hsearched
    constructor
    · exact (isEntered_concat_iff hbuild hplace hname).mpr ⟨hwithin, hkept⟩
    · exact List.forall_mem_append.mpr ⟨hplace, List.forall_mem_singleton.mpr ⟨hname, hkept⟩⟩
  rw [← hvisible, ← flatMap_keep, ← flatMap_keep]
  refine flatMap_walkFrom_eq hnames hinto ?_ (by simp [IsKept])
  intro place name hname hplace hnotSearched hentered visit hvisit
  obtain ⟨hwithin, hkept⟩ := (isEntered_concat_iff hbuild hplace hname).mp hentered
  -- what is entered and not searched is hidden, and so is all that lies in it
  have hdot : name.toList.head? = some '.' := by
    by_contra hdot
    rw [isSearched_concat_iff.mpr ⟨hwithin, hkept, hdot⟩] at hnotSearched
    exact absurd hnotSearched.symm Bool.false_ne_true
  obtain ⟨below, hbelow⟩ := hvisit
  have hhidden : isVisible visit.path = false := by
    rw [← hbelow, isVisible, List.all_append, List.all_append]
    simp [hdot]
  simp [hhidden]

theorem discover_of_scanRoot (hroot : scanRoot disk path = .ok (root, node)) (hdepth : 0 ≤ maxDepth) :
    ∃ place, disk.resolve path = .ok place ∧ discover disk path maxDepth =
      (((walkFrom (isSearched maxDepth) [] node).map Visit.path).mapM (folderAt? disk place)).map
        (List.filterMap id) := by
  obtain ⟨place, hplace, hlocate, hget, hdir⟩ := scanRoot_returns_iff.mp hroot
  refine ⟨place, hplace, ?_⟩
  have hfind : disk.find (.ofRoot place) = .ok (some node) := by
    rw [Disk.find, Disk.findPlace_eq_some_iff.mpr hlocate, ← hget]
    rfl
  cases node with
  | file bytes => simp [Node.isDir] at hdir
  | link target => simp [Node.isDir] at hdir
  | dir entries =>
    unfold discover
    rw [hplace]
    simp only [followed, Except.mapError, bind, Except.bind]
    rw [if_neg (by omega), hfind]
    rfl

/-- **The search for folders and a scan through code skip the same directories.** With the standard
patterns a path is left out by the names of its components alone, and the search comes to the
directories of the scan that are not hidden. -/
theorem discovery_skips_what_scans_skip :
    ∃ filter, ScanFilter.build [] = .ok filter ∧
      (∀ root path names, names ≠ [] → (∀ name ∈ names, IsClean name) → LeadsBelow root names path →
        (filter.ignoresDirectory root path = true ↔ ∃ name ∈ names, name ∈ skippedDirectories) ∧
          (filter.ignoresFile root path = true ↔
            ∃ name ∈ names.dropLast, name ∈ skippedDirectories)) ∧
      ∀ disk path root node maxDepth, scanRoot disk path = .ok (root, node) → HasCleanNames node →
        0 ≤ maxDepth →
          walkFrom (isSearched maxDepth) [] node =
              (walkFrom (isEntered filter maxDepth) [] node).filter (fun visit => isVisible visit.path) ∧
            (∃ place, disk.resolve path = .ok place ∧ discover disk path maxDepth =
              (((walkFrom (isSearched maxDepth) [] node).map Visit.path).mapM
                (folderAt? disk place)).map (List.filterMap id)) ∧
            (isOwnProject disk (.ofRoot root) = .ok false →
              scanCode disk path [] maxDepth = .ok (scanCodeIn disk root node filter maxDepth)) := by
  obtain ⟨filter, hbuild, -⟩ := @ScanFilter.exists_build [] false (by simp)
  refine ⟨filter, hbuild, ?_, ?_⟩
  · intro root path names hne hnames hpath
    exact ⟨ignoresDirectory_standard_iff hbuild hne hnames hpath,
      ignoresFile_standard_iff hbuild hne hnames hpath⟩
  · intro disk path root node maxDepth hroot hnames hdepth
    refine ⟨walkFrom_isSearched_eq hbuild hnames, discover_of_scanRoot hroot hdepth, fun hown => ?_⟩
    exact scanCode_returns_iff.mpr ⟨root, node, false, filter, hroot, hown, hbuild, rfl⟩

theorem hasCleanNames_dir {entries : List (String × Node)}
    (hentries : ∀ entry ∈ entries, IsClean entry.1 ∧ HasCleanNames entry.2) :
    HasCleanNames (.dir entries) := by
  intro below child hheld
  cases hheld with
  | here => simp
  | into hentry hpath =>
    obtain ⟨hname, hbelow⟩ := hentries _ hentry
    exact List.forall_mem_cons.mpr ⟨hname, hbelow _ _ hpath⟩

/-- The entries of a project: a hidden directory, a skipped one and one of its own. -/
def hiddenEntries : List (String × Node) := [(".github", .dir []), ("dist", .dir []), ("src", .dir [])]

/-- The search leaves out the hidden directory, which the scan enters. -/
theorem discovery_skips_what_scan_skips_beside_hidden :
    ∃ filter, ScanFilter.build [] = .ok filter ∧
      filter.ignoresDirectory (.ofRoot ["app"]) (.ofRoot ["app", "src", "dist"]) = true ∧
        filter.ignoresFile (.ofRoot ["app"]) (.ofRoot ["app", "src", "dist"]) = false ∧
          walkFrom (isSearched 8) [] (.dir hiddenEntries) =
              (walkFrom (isEntered filter 8) [] (.dir hiddenEntries)).filter (fun visit => isVisible visit.path) ∧
            scanCode (projectDisk hiddenEntries) (.ofRoot ["app"]) [] 8 =
              .ok (scanCodeIn (projectDisk hiddenEntries) ["app"] (.dir hiddenEntries) filter 8) := by
  obtain ⟨filter, hbuild, hignores, hwalks⟩ := discovery_skips_what_scans_skip
  have hpath : LeadsBelow (.ofRoot ["app"]) ["src", "dist"] (.ofRoot ["app", "src", "dist"]) :=
    .absolute rfl
  obtain ⟨hdirectory, hfile⟩ := hignores _ _ _ (by decide) (by decide) hpath
  have hfolder : IsFolder (projectDisk hiddenEntries) ["app"] hiddenEntries := isFolder_projectDisk rfl
  have hroot := scanRoot_of_isFolder hfolder
  have hempty : HasCleanNames (.dir []) := hasCleanNames_dir (by simp)
  have hnames : HasCleanNames (.dir hiddenEntries) := by
    apply hasCleanNames_dir
    simp only [hiddenEntries, List.forall_mem_cons, List.not_mem_nil, false_implies, implies_true, and_true]
    exact ⟨⟨by decide, hempty⟩, ⟨by decide, hempty⟩, by decide, hempty⟩
  have hown := isOwnProject_of_no_manifest hfolder rfl (by decide)
  obtain ⟨hwalk, -, hscan⟩ := hwalks _ _ _ _ 8 hroot hnames (by decide)
  refine ⟨filter, hbuild, hdirectory.mpr (by decide), ?_, hwalk, hscan hown⟩
  rw [← Bool.not_eq_true, hfile]
  decide

end EnvFill.Project
