import EnvFill.Command.Scan
import EnvFill.Proofs.AlikeScans

/-!
# Reports on disks that differ in values

A report holds the settings that variables are compared with, and what it shows of them is which variables
are set. That depends on which keys there are, and on which of them are blank.
-/

namespace EnvFill.Project

open Storage Node

variable {disk : Disk} {root : Location} {maxDepth : Int} {folders : List Folder} {folder : Folder}

theorem HasNoLinks.append (hlinks : HasNoLinks disk root) (below : Location) :
    HasNoLinks disk (root ++ below) := by
  have hchild : ∀ rest child, disk.top.get? (root ++ rest) = some child → child.linkCount = 0 := by
    intro rest child hget
    rw [get?_append] at hget
    obtain ⟨node, hnode, hrest⟩ := Option.bind_eq_some_iff.mp hget
    exact linkCount_of_get? (hlinks.below node hnode) hrest
  refine ⟨fun front hfront target hlink => ?_, fun child hget => hchild below child hget⟩
  rcases List.prefix_or_prefix_of_prefix hfront (List.prefix_append root below) with habove | hbelow
  · exact hlinks.above front habove target hlink
  · obtain ⟨rest, rfl⟩ := hbelow
    exact absurd (hchild rest _ hlink) Nat.one_ne_zero

theorem find_eq_some {path : Pathname} {node : Node} (hfind : disk.find path = .ok (some node)) :
    ∃ place, disk.locate? path = .ok place ∧ disk.top.get? place = some node := by
  obtain ⟨found, hfound, hnode⟩ := except_map_eq_ok_iff.mp hfind
  obtain ⟨place, rfl, hget⟩ := Option.bind_eq_some_iff.mp hnode
  exact ⟨place, Disk.findPlace_eq_some_iff.mp hfound, hget⟩

theorem isName_of_mem_searchedPlaces {path : Pathname} {found : Option Node} {below : Location}
    (hnames : HasProperNames disk.top) (hfound : followed (disk.find path) = .ok found)
    (hbelow : below ∈ searchedPlaces found maxDepth) : ∀ name ∈ below, IsName name := by
  unfold searchedPlaces at hbelow
  split at hbelow
  · rename_i entries
    obtain ⟨visit, hvisit, rfl⟩ := List.mem_map.mp hbelow
    obtain ⟨rest, hpath, hheld, -⟩ := mem_walkFrom_iff.mp hvisit
    obtain ⟨place, -, hget⟩ := find_eq_some (followed_eq_ok_iff.mp hfound)
    rw [hpath, List.nil_append]
    exact isName_of_holds (hnames.of_holds (holds_of_get? hget)) hheld
  · rw [List.mem_singleton.mp hbelow]
    exact fun name hname => absurd hname List.not_mem_nil

/-- The folders that are found lie below the place that the search begins at. -/
theorem exists_location_of_discover {path : Pathname} (hnames : HasProperNames disk.top)
    (hfolders : discover disk path maxDepth = .ok folders) (hfolder : folder ∈ folders) :
    ∃ place below, disk.resolve path = .ok place ∧ folder.location = place ++ below ∧
      ∀ name ∈ below, IsName name := by
  unfold discover at hfolders
  obtain ⟨place, hplace, hfolders⟩ := except_bind_eq_ok_iff.mp hfolders
  rw [followed_eq_ok_iff] at hplace
  split at hfolders
  · obtain rfl : [] = folders := Except.ok.inj hfolders
    exact absurd hfolder List.not_mem_nil
  · obtain ⟨node, hnode, hfolders⟩ := except_bind_eq_ok_iff.mp hfolders
    obtain ⟨results, hresults, hfolders⟩ := except_bind_eq_ok_iff.mp hfolders
    obtain rfl : results.filterMap id = folders := Except.ok.inj hfolders
    obtain ⟨result, hresult, heq⟩ := List.mem_filterMap.mp hfolder
    obtain rfl : result = some folder := heq
    obtain ⟨below, hbelow, hmarked⟩ := exists_of_mem_mapM hresults hresult
    refine ⟨place, below, hplace, ?_, ?_⟩
    · obtain ⟨markers, -, hmarked⟩ := except_bind_eq_ok_iff.mp hmarked
      have hsome := Except.ok.inj hmarked
      split at hsome
      · simp at hsome
      · rw [← Option.some.inj hsome]
    · exact isName_of_mem_searchedPlaces hnames hnode hbelow

end EnvFill.Project

namespace EnvFill.Report

open EnvFile Fill

/-- The reports differ at most in values that are set in both. -/
structure SameReport (one two : ScanReport) : Prop where
  folder : one.folder = two.folder
  target : one.target = two.target
  deep : one.deep = two.deep
  found : one.found = two.found
  isSet : Fill.isSet one.existing = Fill.isSet two.existing

namespace SameReport

variable {one two : ScanReport}

theorem stats_eq (hsame : SameReport one two) : one.stats = two.stats := by
  unfold ScanReport.stats reconcile
  rw [hsame.found, hsame.isSet]

theorem display_eq (hsame : SameReport one two) : one.display = two.display := by
  have htable : one.table = two.table := by
    unfold ScanReport.table ScanReport.row ScanReport.isSet
    rw [hsame.found, hsame.isSet]
  unfold ScanReport.display
  rw [hsame.stats_eq, htable, hsame.deep, hsame.found, hsame.folder, hsame.target]

theorem reportJson_eq (hsame : SameReport one two) : reportJson one = reportJson two := by
  unfold reportJson variableJson ScanReport.isSet
  rw [hsame.stats_eq, hsame.isSet, hsame.folder, hsame.target, hsame.deep, hsame.found]

end SameReport

theorem documentText_eq {reports others : List ScanReport}
    (hsame : List.Forall₂ SameReport reports others) : documentText reports = documentText others := by
  have hsum : ∀ count : Stats → Int, sumOf count reports = sumOf count others := by
    intro count
    unfold sumOf
    induction hsame with
    | nil => rfl
    | cons hreport _ ih => rw [List.foldr_cons, List.foldr_cons, ih, hreport.stats_eq]
  unfold documentText documentJson
  rw [hsum, hsum, hsum, map_eq_of_forall₂ hsame fun _ _ hreport => hreport.reportJson_eq]

end EnvFill.Report

namespace EnvFill.Command

open Procedure Storage EnvFile Fill Project Report

variable {config : Config} {disk other : Disk} {root : Location} {folder : Folder}

def comparedFile (config : Config) (disk : Disk) (folder : Folder) : Except Error String :=
  match config.envFile.filter (!·.isEmpty) with
  | some file => return file
  | none => defaultTarget disk (.ofRoot folder.location)

def comparedSettings (config : Config) (disk : Disk) (folder : Folder) : Except Error Entries := do
  let target ← comparedFile config disk folder
  readSettings disk ((Pathname.ofRoot folder.location).join (.ofString target))

theorem reportOn_eq (config : Config) (disk : Disk) (folder : Folder) :
    reportOn config disk folder = do
      let found ← scan disk (.ofRoot folder.location) config.deep config.extraIgnore
        config.scanMaxDepth
      let target ← comparedFile config disk folder
      let existing ← readSettings disk ((Pathname.ofRoot folder.location).join (.ofString target))
      return ⟨folder.path, target, config.deep, found, existing⟩ := by
  unfold reportOn comparedFile
  refine bind_congr fun found => ?_
  cases config.envFile.filter (!·.isEmpty) <;> rfl

theorem comparedFile_eq (halike : AlikeDisks disk other) (folder : Folder) :
    comparedFile config disk folder = comparedFile config other folder := by
  unfold comparedFile
  rw [defaultTarget_eq halike]

def SameBlanks (config : Config) (disk other : Disk) (folders : List Folder) : Prop :=
  ∀ folder ∈ folders, ∀ one two, comparedSettings config disk folder = .ok one →
    comparedSettings config other folder = .ok two → ∀ key, IsBlankIn one key ↔ IsBlankIn two key

theorem reportOn_matching (halike : AlikeDisks disk other)
    (hnames : ∀ name ∈ folder.location, IsName name) (hlinks : HasNoLinks disk folder.location)
    (hblanks : SameBlanks config disk other [folder]) :
    Matching SameReport (reportOn config disk folder) (reportOn config other folder) := by
  rw [reportOn_eq, reportOn_eq, scan_eq halike hnames hlinks]
  refine (matching_eq_iff.mpr rfl).bind ?_
  rintro found _ rfl
  refine (matching_eq_iff.mpr (comparedFile_eq halike folder)).results.bind ?_
  rintro file _ ⟨hfile, hother, rfl⟩
  refine (readSettings_matching halike _).results.bind fun one two hboth => ?_
  obtain ⟨hone, htwo, hkeys⟩ := hboth
  refine .ok ⟨rfl, rfl, rfl, rfl, ?_⟩
  funext name
  refine isSet_congr (hkeys name) (hblanks folder (List.mem_singleton_self _) one two ?_ ?_ name)
  · rw [comparedSettings, hfile]
    exact hone
  · rw [comparedSettings, hother]
    exact htwo

theorem reportedFolders_eq (halike : AlikeDisks disk other) (root : Location) :
    reportedFolders config root disk = reportedFolders config root other := by
  unfold reportedFolders
  rw [discover_eq halike]

/-- The folders that are reported on lie in the project, and it has no links. -/
theorem hasNoLinks_of_reportedFolders {folders : List Folder} (hproper : HasProperNames disk.top)
    (hnames : ∀ name ∈ root, IsName name) (hlinks : HasNoLinks disk root)
    (hfolders : reportedFolders config root disk = .ok folders) (hfolder : folder ∈ folders) :
    (∀ name ∈ folder.location, IsName name) ∧ HasNoLinks disk folder.location := by
  obtain ⟨discovered, hdiscovered, hreported⟩ := except_bind_eq_ok_iff.mp hfolders
  cases discovered with
  | nil =>
    obtain rfl : [⟨".", root, []⟩] = folders := Except.ok.inj hreported
    obtain rfl := List.mem_singleton.mp hfolder
    exact ⟨hnames, hlinks⟩
  | cons first rest =>
    obtain rfl : first :: rest = folders := Except.ok.inj hreported
    obtain ⟨place, below, hplace, hlocation, hbelow⟩ :=
      exists_location_of_discover hproper hdiscovered hfolder
    obtain rfl := Disk.eq_of_resolve_ofRoot hnames hlinks.above hplace
    rw [hlocation]
    exact ⟨List.forall_mem_append.mpr ⟨hnames, hbelow⟩, hlinks.append below⟩

theorem reports_matching {folders : List Folder} (halike : AlikeDisks disk other)
    (hnames : ∀ name ∈ root, IsName name) (hlinks : HasNoLinks disk root)
    (hfolders : reportedFolders config root disk = .ok folders)
    (hblanks : SameBlanks config disk other folders) :
    Matching (List.Forall₂ SameReport) (folders.mapM (reportOn config disk))
      (folders.mapM (reportOn config other)) := by
  refine Matching.mapM fun folder hfolder => ?_
  obtain ⟨hlocation, hfree⟩ :=
    hasNoLinks_of_reportedFolders halike.names hnames hlinks hfolders hfolder
  refine reportOn_matching halike hlocation hfree fun same hsame => ?_
  rw [List.mem_singleton.mp hsame]
  exact hblanks folder hfolder

end EnvFill.Command
