import EnvFill.Proofs.AlikeTrees
import EnvFill.Proofs.FoundFolders
import EnvFill.Proofs.ProperPlaces
import EnvFill.Proofs.ReportedNames

/-!
# Folders that the search finds

The search for folders lists exactly the directories that it reaches and that hold a settings file, each
once and in the order of their paths. It gives no list only where a path that it has to follow, or a link on
it, has a name that is too long.
-/

namespace EnvFill.Storage

open Node Text

variable {enters : Location → Bool} {path below : Location} {entries inner : List (String × Node)}
  {node : Node} {visit : Visit} {disk : Disk} {folder : Location} {name : String}

theorem pairwise_lt_byName {β : Type} {pairs : List (String × β)} (hnodup : (pairs.map Prod.fst).Nodup) :
    (Sorted.byName pairs).Pairwise fun a b => a.1 < b.1 := by
  have hperm : ((Sorted.byName pairs).map Prod.fst).Perm (pairs.map Prod.fst) :=
    (List.mergeSort_perm _ _).map Prod.fst
  have hdistinct : (Sorted.byName pairs).Pairwise fun a b => a.1 ≠ b.1 :=
    List.pairwise_map.mp (hperm.nodup_iff.mpr hnodup)
  exact (pairwise_byName pairs).imp₂ (fun _ _ hle hne => lt_of_le_of_ne hle hne) hdistinct

def pathsFrom (enters : Location → Bool) (path : Location) (entry : String × Node) : List Location :=
  if enters (path ++ [entry.1]) then (walkFrom enters (path ++ [entry.1]) entry.2).map Visit.path else []

theorem map_path_walkFrom_dir :
    (walkFrom enters path (.dir entries)).map Visit.path =
      path :: (Sorted.byName entries).flatMap (pathsFrom enters path) := by
  rw [List.map_eq_flatMap, flatMap_walkFrom_dir, List.singleton_append]
  congr 2
  funext entry
  rw [pathsFrom, List.map_eq_flatMap]

theorem exists_of_mem_pathsFrom {entry : String × Node} {place : Location}
    (hplace : place ∈ pathsFrom enters path entry) : ∃ below, place = path ++ entry.1 :: below := by
  unfold pathsFrom at hplace
  split at hplace
  · obtain ⟨visit, hvisit, rfl⟩ := List.mem_map.mp hplace
    obtain ⟨below, hpath, -, -⟩ := mem_walkFrom_iff.mp hvisit
    exact ⟨below, by simpa using hpath⟩
  · simp at hplace

/-- **A walk goes in the order of paths.** A directory comes before those in it, and those come by name, so
that paths are ordered component by component. -/
theorem pairwise_lt_walkFrom (hnames : HasProperNames node) :
    ((walkFrom enters path node).map Visit.path).Pairwise (· < ·) := by
  induction node using Node.tree_induction generalizing path with
  | hfile bytes => rw [walkFrom]; exact .nil
  | hlink target => rw [walkFrom]; exact .nil
  | hdir entries ih =>
    rw [map_path_walkFrom_dir, List.pairwise_cons, List.pairwise_flatMap]
    refine ⟨fun place hplace => ?_, fun entry hentry => ?_, ?_⟩
    · obtain ⟨entry, -, hbelow⟩ := List.mem_flatMap.mp hplace
      obtain ⟨below, rfl⟩ := exists_of_mem_pathsFrom hbelow
      have hlonger : path ++ [] < path ++ entry.1 :: below :=
        List.append_left_lt (List.nil_lt_cons entry.1 below)
      rwa [List.append_nil] at hlonger
    · unfold pathsFrom
      split
      · have hchild := mem_byName.mp hentry
        exact ih _ hchild (hnames.of_holds (.into hchild (.here _)))
      · exact .nil
    · refine (pairwise_lt_byName (hnames _ _ (.here _)).1).imp fun {first second} hlt => ?_
      intro place hplace other hother
      obtain ⟨below, rfl⟩ := exists_of_mem_pathsFrom hplace
      obtain ⟨beside, rfl⟩ := exists_of_mem_pathsFrom hother
      exact List.append_left_lt (List.cons_lt_cons_iff.mpr (.inl hlt))

/-- The names in a tree are such as a file system allows: different in each directory, of one component,
and not too long. -/
structure HasFileNames (node : Node) : Prop where
  proper : HasProperNames node
  allowed : ∀ below child, node.Holds below child → ∀ name ∈ below,
    '\x00' ∉ name.toList ∧ isTooLong name = false

theorem hasFileNames_dir (hnodup : (entries.map Prod.fst).Nodup)
    (hnames : ∀ entry ∈ entries, IsName entry.1 ∧ '\x00' ∉ entry.1.toList ∧ isTooLong entry.1 = false)
    (hchildren : ∀ entry ∈ entries, HasFileNames entry.2) : HasFileNames (.dir entries) where
  proper := by
    intro below inner hheld
    cases hheld with
    | here => exact ⟨hnodup, fun entry hentry => (hnames entry hentry).1⟩
    | into hentry hpath => exact (hchildren _ hentry).proper _ _ hpath
  allowed := by
    intro below child hheld
    cases hheld with
    | here => exact List.forall_mem_nil _
    | into hentry hpath =>
      exact List.forall_mem_cons.mpr ⟨(hnames _ hentry).2, (hchildren _ hentry).allowed _ _ hpath⟩

theorem hasFileNames_of_not_dir (hfile : node.isDir = false) : HasFileNames node where
  proper := by
    intro below inner hheld
    cases hheld <;> cases hfile
  allowed := by
    intro below child hheld
    cases hheld with
    | here => exact List.forall_mem_nil _
    | into => cases hfile

/-- Whether a path leads to a file can be told unless it meets a name that is too long. -/
theorem Disk.isFile_eq_ok_iff {path : Pathname} {answer : Bool} :
    disk.isFile path = .ok answer ↔ disk.locate? path ≠ .error .nameTooLong ∧
      (answer = true ↔ ∃ bytes, disk.bytes? path = .ok (some bytes)) := by
  unfold Disk.isFile
  cases hbytes : disk.bytes? path with
  | ok found =>
    have hlocate : disk.locate? path ≠ .error .nameTooLong := by
      intro hlong
      have hfails := Disk.bytes?_eq_error_iff.mpr ⟨hlong, rfl⟩
      rw [hbytes] at hfails
      cases hfails
    cases found <;> cases answer <;> simp [Except.map, hlocate]
  | error cause =>
    obtain ⟨hlocate, -⟩ := Disk.bytes?_eq_error_iff.mp hbytes
    simp [Except.map, hlocate]

/-- A link to one name is followed in one step. -/
theorem linkSteps_of_slash_not_mem {target : String} (hplain : ∀ c ∈ target.toList, (c == '/') = false)
    (hne : target ≠ "") : linkSteps target = [target] := by
  have hwhole : splitAtEach (· == '/') (endEach '/' [] ++ target.toList) = [] ++ [target.toList] :=
    splitAtEach_endEach_append_last (by decide) (by simpa only [List.nil_append, List.forall_mem_singleton])
  have hcomponents : components target = [target] := by
    rw [endEach_nil, List.nil_append] at hwhole
    rw [components, hwhole, List.nil_append, List.map_singleton, String.ofList_toList]
  have hlast : target.toList.getLast? ≠ some '/' := by
    intro hslash
    exact absurd (hplain '/' (List.mem_of_getLast? hslash)) (by decide)
  rw [linkSteps, hcomponents, if_neg hlast]
  simp [hne]

/-- A link to a name that is too long cannot be followed. -/
theorem locateFrom?_of_longLink {top : Node} {links : Nat} {place : Location} {name target : String}
    (hname : IsName name) (hshort : isTooLong name = false)
    (hget : top.get? (place ++ [name]) = some (.link target))
    (hplain : ∀ c ∈ target.toList, (c == '/') = false) (hlong : isTooLong target = true) :
    locateFrom? top (links + 1) place [name] = .error .nameTooLong := by
  have hne : ∀ text, isTooLong text = false → target ≠ text := by
    rintro text hless rfl
    exact Bool.false_ne_true (hless.symm.trans hlong)
  have hsteps : linkSteps target = [target] := linkSteps_of_slash_not_mem hplain (hne "" (by decide))
  rw [locateFrom?, if_neg hname.2.1, if_neg hname.2.2, if_neg (by simp [hshort]), hget]
  dsimp only
  rw [hsteps, List.append_nil, locateFrom?, if_neg (hne "." (by decide)), if_neg (hne ".." (by decide)),
    if_pos hlong]

end EnvFill.Storage

namespace EnvFill.Project

open Storage Ignore Node

variable {disk : Disk} {root : Pathname} {place folder below : Location} {node : Node}
  {entries inner : List (String × Node)} {maxDepth : Int} {name : String}

/-- A directory that the search reaches: through directories alone, not too far down, and with no name on
the way that is skipped. -/
structure IsReached (node : Node) (maxDepth : Int) (below : Location) : Prop where
  held : ∃ inner, node.Holds below (.dir inner)
  shallow : (below.length : Int) ≤ maxDepth
  searched : ∀ name ∈ below, name ∉ skippedDirectories ∧ name.toList.head? ≠ some '.'

def HoldsFile (disk : Disk) (folder : Location) (name : String) : Prop :=
  ∃ child bytes, disk.top.get? (folder ++ [name]) = some child ∧ LeadsToFile disk folder name bytes child

instance : DecidablePred (HoldsFile disk folder) := fun name =>
  decidable_of_iff
    (((disk.top.get? (folder ++ [name])).bind fun child =>
      entryBytes? disk folder (name, child)).isSome) <| by
    rw [Option.isSome_iff_exists]
    simp only [Option.bind_eq_some_iff, entryBytes?_eq_some_iff]
    exact exists_comm.trans (by simp only [HoldsFile, exists_and_left])

/-- The folder at a place below a project, with the settings files that it holds. -/
def folderAt (disk : Disk) (place below : Location) : Folder :=
  ⟨relativeText below, place ++ below, Name.markerFiles.filter (HoldsFile disk (place ++ below) ·)⟩

theorem forall_isSearched_iff (hdepth : 0 ≤ maxDepth) :
    (∀ front, front ≠ [] → front <+: below → isSearched maxDepth front = true) ↔
      (below.length : Int) ≤ maxDepth ∧
        ∀ name ∈ below, name ∉ skippedDirectories ∧ name.toList.head? ≠ some '.' := by
  constructor
  · intro hall
    constructor
    · rcases List.eq_nil_or_concat' below with rfl | ⟨front, last, rfl⟩
      · exact hdepth
      · have hwhole := isSearched_concat_iff.mp (hall _ (by simp) (List.prefix_refl _))
        exact of_decide_eq_true hwhole.1
    · intro name hname
      obtain ⟨front, back, rfl⟩ := List.append_of_mem hname
      exact (isSearched_concat_iff.mp (hall (front ++ [name]) (by simp) ⟨back, by simp⟩)).2
  · rintro ⟨hshallow, hsearched⟩ front hne hfront
    obtain ⟨above, last, rfl⟩ := List.eq_nil_or_concat' front |>.resolve_left hne
    have hwithin : isWithin maxDepth (above ++ [last]) = true := by
      have hle := hfront.length_le
      exact decide_eq_true (by omega)
    exact isSearched_concat_iff.mpr ⟨hwithin, hsearched last (hfront.subset (by simp))⟩

theorem mem_paths_isSearched_iff (hdepth : 0 ≤ maxDepth) :
    below ∈ (walkFrom (isSearched maxDepth) [] node).map Visit.path ↔ IsReached node maxDepth below := by
  simp only [List.mem_map, mem_walkFrom_iff, List.nil_append, forall_isSearched_iff hdepth]
  constructor
  · rintro ⟨visit, ⟨_, rfl, hheld, hshallow, hsearched⟩, rfl⟩
    exact ⟨⟨_, hheld⟩, hshallow, hsearched⟩
  · rintro ⟨⟨inner, hheld⟩, hshallow, hsearched⟩
    exact ⟨⟨below, inner⟩, ⟨below, rfl, hheld, hshallow, hsearched⟩, rfl⟩

theorem holdsFile_iff (hget : disk.top.get? folder = some (.dir inner)) (hname : IsName name)
    (hshort : isTooLong name = false) :
    HoldsFile disk folder name ↔ ∃ goal bytes,
      locateFrom? disk.top maxLinks folder [name] = .ok goal ∧ disk.top.get? goal = some (.file bytes) := by
  constructor
  · rintro ⟨child, bytes, hentry, hleads⟩
    cases hleads with
    | link hgoal hfile => exact ⟨_, bytes, hgoal, hfile⟩
    | file =>
      refine ⟨_, bytes, ?_, hentry⟩
      rw [locateFrom?, if_neg hname.2.1, if_neg hname.2.2, if_neg (by simp [hshort]), hentry]
      rfl
  · rintro ⟨goal, bytes, hgoal, hfile⟩
    obtain ⟨child, hentry, hleads⟩ := exists_leadsToFile hget hname hgoal hfile
    exact ⟨child, bytes, (get?_concat_of_dir hget name).trans hentry, hleads⟩

section Reached

variable (hnames : HasFileNames disk.top) (hget : disk.top.get? folder = some (.dir inner))

include hnames hget

theorem bytes?_eq_some_iff_holdsFile (hname : IsName name) (hshort : isTooLong name = false)
    (hzero : '\x00' ∉ name.toList)
    (hlocate : disk.locate? (.ofRoot (folder ++ [name])) ≠ .error .nameTooLong) :
    (∃ bytes, disk.bytes? (.ofRoot (folder ++ [name])) = .ok (some bytes)) ↔ HoldsFile disk folder name := by
  have hheld := holds_of_get? hget
  have hallowed := hnames.allowed _ _ hheld
  have htext : Disk.checkText (.ofRoot (folder ++ [name])) = .ok () := by
    have hzeros : (Pathname.ofRoot (folder ++ [name])).hasZero = false :=
      hasZero_eq_false_iff.mpr <| List.forall_mem_append.mpr
        ⟨fun other hother => (hallowed other hother).1, List.forall_mem_singleton.mpr hzero⟩
    unfold Disk.locate? Disk.checkText at hlocate
    unfold Disk.checkText
    rw [hzeros, if_neg Bool.false_ne_true] at hlocate ⊢
    split
    · rename_i hlong
      rw [if_pos hlong] at hlocate
      exact absurd rfl hlocate
    · rfl
  have hsteps : locateFrom? disk.top maxLinks [] (folder ++ [name]) =
      locateFrom? disk.top maxLinks folder [name] :=
    locateFrom?_append_of_dir (isName_of_holds hnames.proper hheld)
      (fun other hother => (hallowed other hother).2) hget
  rw [holdsFile_iff hget hname hshort, exists_comm]
  refine exists_congr fun bytes => ?_
  rw [Disk.bytes?_eq_some_iff]
  refine exists_congr fun goal => and_congr_left fun _ => ?_
  rw [Disk.locate?_eq_ok_iff, and_iff_right htext]
  exact Eq.congr_left hsteps

/-- Whether a folder holds a settings file can be told unless its path meets a name that is too long. -/
theorem isFile_eq_ok_iff (hname : name ∈ Name.markerFiles) {answer : Bool} :
    followed (disk.isFile ((Pathname.ofRoot folder).join (.ofString name))) = .ok answer ↔
      disk.locate? (.ofRoot (folder ++ [name])) ≠ .error .nameTooLong ∧
        answer = decide (HoldsFile disk folder name) := by
  have hmarker : ∀ name ∈ Name.markerFiles, IsName name ∧ isTooLong name = false ∧
      '\x00' ∉ name.toList := by decide
  obtain ⟨hisName, hshort, hzero⟩ := hmarker name hname
  rw [followed_eq_ok_iff, join_markerFile folder hname, Disk.isFile_eq_ok_iff]
  refine and_congr_right fun hlocate => ?_
  rw [bytes?_eq_some_iff_holdsFile hnames hget hisName hshort hzero hlocate]
  cases answer <;> simp

end Reached

/-- Looking at a folder gives the settings files that it holds. -/
theorem folderAt?_eq_ok_iff (hnames : HasFileNames disk.top)
    (hget : disk.top.get? (place ++ below) = some (.dir inner)) {answer : Option Folder} :
    folderAt? disk place below = .ok answer ↔
      (∀ name ∈ Name.markerFiles,
        disk.locate? (.ofRoot (place ++ below ++ [name])) ≠ .error .nameTooLong) ∧
        answer =
          if (folderAt disk place below).files.isEmpty then none else some (folderAt disk place below) := by
  unfold folderAt? markersIn
  simp only [except_bind_eq_ok_iff,
    filterM_eq_ok_iff fun name hname answer => isFile_eq_ok_iff hnames hget hname]
  constructor
  · rintro ⟨_, ⟨hall, rfl⟩, hanswer⟩
    exact ⟨hall, (Except.ok.inj hanswer).symm⟩
  · rintro ⟨hall, rfl⟩
    exact ⟨_, ⟨hall, rfl⟩, rfl⟩

theorem get?_eq_some_iff_holds (hnames : HasProperNames node) {child : Node} :
    node.get? below = some child ↔ node.Holds below child := by
  refine ⟨holds_of_get?, fun hheld => ?_⟩
  induction hheld with
  | here => rfl
  | into hentry hpath ih =>
    rw [get?, Node.entries, (lookup_eq_some_iff (hnames _ _ (.here _)).1).mpr hentry]
    exact ih (hnames.of_holds (.into hentry (.here _)))

theorem discover_eq_mapM (hplace : disk.resolve root = .ok place) (hroot : IsDirectory disk place entries) :
    discover disk root maxDepth =
      if maxDepth < 0 then .ok []
      else (((walkFrom (isSearched maxDepth) [] (.dir entries)).map Visit.path).mapM
        (folderAt? disk place)).map (List.filterMap id) := by
  have hfind : disk.find (.ofRoot place) = .ok (some (.dir entries)) := by
    rw [Disk.find, Disk.findPlace_eq_some_iff.mpr hroot.locate?_eq, ← hroot.get_eq]
    rfl
  unfold discover
  rw [hplace]
  simp only [followed, Except.mapError, bind, Except.bind]
  rw [hfind]
  rfl

/-- The folders that are listed, place by place. -/
theorem filterMap_folders (places : List Location) :
    (places.map fun below =>
      if (folderAt disk place below).files.isEmpty then none
      else some (folderAt disk place below)).filterMap id =
      (places.filter fun below => !(folderAt disk place below).files.isEmpty).map (folderAt disk place) := by
  induction places with
  | nil => rfl
  | cons below places ih =>
    rw [List.map_cons, List.filterMap_cons, ih, List.filter_cons]
    cases (folderAt disk place below).files.isEmpty <;> rfl

/-- What the search gives, if it looks at each directory that it reaches. -/
theorem discover_eq_ok_iff (hnames : HasFileNames disk.top) (hplace : disk.resolve root = .ok place)
    (hroot : IsDirectory disk place entries) (hdepth : 0 ≤ maxDepth) {folders : List Folder} :
    discover disk root maxDepth = .ok folders ↔
      (∀ below, IsReached (.dir entries) maxDepth below → ∀ name ∈ Name.markerFiles,
        disk.locate? (.ofRoot (place ++ below ++ [name])) ≠ .error .nameTooLong) ∧
      folders = (((walkFrom (isSearched maxDepth) [] (.dir entries)).map Visit.path).filter fun below =>
        !(folderAt disk place below).files.isEmpty).map (folderAt disk place) := by
  have htree : HasProperNames (.dir entries) := hnames.proper.of_holds (holds_of_get? hroot.get_eq)
  have hfolder : ∀ below ∈ (walkFrom (isSearched maxDepth) [] (.dir entries)).map Visit.path, ∀ answer,
      folderAt? disk place below = .ok answer ↔
        (∀ name ∈ Name.markerFiles,
          disk.locate? (.ofRoot (place ++ below ++ [name])) ≠ .error .nameTooLong) ∧
          answer =
            if (folderAt disk place below).files.isEmpty then none else some (folderAt disk place below) := by
    intro below hbelow answer
    obtain ⟨inner, hheld⟩ := ((mem_paths_isSearched_iff hdepth).mp hbelow).held
    have hget : disk.top.get? (place ++ below) = some (.dir inner) := by
      rw [get?_append, hroot.get_eq]
      exact (get?_eq_some_iff_holds htree).mpr hheld
    exact folderAt?_eq_ok_iff hnames hget
  rw [discover_eq_mapM hplace hroot, if_neg (not_lt.mpr hdepth), except_map_eq_ok_iff]
  simp only [mapM_eq_ok_iff hfolder, mem_paths_isSearched_iff hdepth]
  constructor
  · rintro ⟨_, ⟨hall, rfl⟩, rfl⟩
    exact ⟨hall, filterMap_folders _⟩
  · rintro ⟨hall, rfl⟩
    exact ⟨_, ⟨hall, rfl⟩, filterMap_folders _⟩

/-- **The search lists exactly the folders that it reaches and that hold a settings file**, in the order of
their paths. It lists none only if one of the paths at which it has to look meets a name that is too long. -/
theorem discover_lists_marked_folders (hnames : HasFileNames disk.top)
    (hplace : disk.resolve root = .ok place) (hroot : IsDirectory disk place entries) :
    ((∃ folders, discover disk root maxDepth = .ok folders) ↔
      ∀ below, IsReached (.dir entries) maxDepth below → ∀ name ∈ Name.markerFiles,
        disk.locate? (.ofRoot (place ++ below ++ [name])) ≠ .error .nameTooLong) ∧
    ∀ folders, discover disk root maxDepth = .ok folders →
      ∃ places : List Location, folders = places.map (folderAt disk place) ∧ places.Pairwise (· < ·) ∧
        ∀ below, below ∈ places ↔
          IsReached (.dir entries) maxDepth below ∧ (folderAt disk place below).files ≠ [] := by
  by_cases hdepth : maxDepth < 0
  · have hnone : ∀ below, ¬IsReached (.dir entries) maxDepth below := by
      intro below hreached
      have hshallow := hreached.shallow
      omega
    rw [discover_eq_mapM hplace hroot, if_pos hdepth]
    refine ⟨⟨fun _ below hreached => absurd hreached (hnone below), fun _ => ⟨[], rfl⟩⟩, ?_⟩
    rintro _ ⟨⟩
    exact ⟨[], rfl, .nil, fun below => by simp [hnone below]⟩
  · have htree : HasProperNames (.dir entries) := hnames.proper.of_holds (holds_of_get? hroot.get_eq)
    simp only [discover_eq_ok_iff hnames hplace hroot (not_lt.mp hdepth)]
    refine ⟨⟨fun ⟨_, hall, _⟩ => hall, fun hall => ⟨_, hall, rfl⟩⟩, ?_⟩
    rintro _ ⟨-, rfl⟩
    refine ⟨_, rfl, (pairwise_lt_walkFrom htree).filter _, fun below => ?_⟩
    rw [List.mem_filter, mem_paths_isSearched_iff (not_lt.mp hdepth)]
    simp

def dashedTree : List (String × Node) :=
  [("a-b", .dir [(".env", .file [])]), ("a", .dir [("c", .dir [(".env", .file [])])])]

/-- A project in which the order of paths is not that of their texts. -/
def dashedDisk : Disk := projectDisk dashedTree

theorem hasFileNames_projectDisk (hentries : HasFileNames (.dir entries)) :
    HasFileNames (projectDisk entries).top := by
  have htop : IsName "app" ∧ '\x00' ∉ "app".toList ∧ isTooLong "app" = false := by decide
  exact hasFileNames_dir (List.nodup_singleton _)
    (List.forall_mem_singleton.mpr htop)
    (List.forall_mem_singleton.mpr hentries)

/-- A folder that holds nothing but a settings file. -/
theorem hasFileNames_settings : HasFileNames (.dir [(".env", .file [])]) :=
  hasFileNames_dir (by decide) (by decide) (List.forall_mem_singleton.mpr (hasFileNames_of_not_dir rfl))

theorem hasFileNames_dashedDisk : HasFileNames dashedDisk.top := by
  have hparent : HasFileNames (.dir [("c", .dir [(".env", .file [])])]) :=
    hasFileNames_dir (by decide) (by decide) (List.forall_mem_singleton.mpr hasFileNames_settings)
  exact hasFileNames_projectDisk <| hasFileNames_dir (by decide) (by decide)
    (List.forall_mem_cons.mpr ⟨hasFileNames_settings, List.forall_mem_singleton.mpr hparent⟩)

theorem isReached_dashedTree_iff :
    IsReached (.dir dashedTree) 2 below ↔ below ∈ [[], ["a"], ["a", "c"], ["a-b"]] := by
  have hwalk : (walkFrom (isSearched 2) [] (.dir dashedTree)).map Visit.path =
      [[], ["a"], ["a", "c"], ["a-b"]] := by cbv
  rw [← mem_paths_isSearched_iff (by decide), hwalk]

theorem locate?_dashedDisk_ne (hbelow : below ∈ [[], ["a"], ["a", "c"], ["a-b"]])
    (hname : name ∈ Name.markerFiles) :
    dashedDisk.locate? (.ofRoot (["app"] ++ below ++ [name])) ≠ .error .nameTooLong := by
  have hshort : ∀ below ∈ [[], ["a"], ["a", "c"], ["a-b"]], ∀ name ∈ Name.markerFiles,
      Disk.checkText (.ofRoot (["app"] ++ below ++ [name])) = .ok () ∧
        ∀ other ∈ ["app"] ++ below ++ [name], IsName other ∧ isTooLong other = false := by decide
  obtain ⟨htext, hnames⟩ := hshort below hbelow name hname
  intro hlong
  rcases Disk.locate?_ofRoot_error (fun other hother => (hnames other hother).1)
    (isLinkFree_of_linkCount rfl _) hlong with hcause | ⟨hcause, -⟩ | ⟨-, other, hother, htoo⟩
  · rw [htext] at hcause
    cases hcause
  · simp at hcause
  · rw [(hnames other hother).2] at htoo
    cases htoo

/-- In a project of two settings files, the search finds their folders. -/
theorem discover_lists_marked_folders_of_dashedDisk :
    discover dashedDisk (.ofRoot ["app"]) 2 =
      .ok [⟨"a/c", ["app", "a", "c"], [".env"]⟩, ⟨"a-b", ["app", "a-b"], [".env"]⟩] := by
  have hroot : IsDirectory dashedDisk ["app"] dashedTree := isDirectory_projectDisk dashedTree
  obtain ⟨hruns, hlists⟩ := discover_lists_marked_folders hasFileNames_dashedDisk hroot.resolve_eq hroot
  obtain ⟨folders, hfolders⟩ : ∃ folders, discover dashedDisk (.ofRoot ["app"]) 2 = .ok folders :=
    hruns.mpr fun below hbelow name hname =>
      locate?_dashedDisk_ne (isReached_dashedTree_iff.mp hbelow) hname
  obtain ⟨places, rfl, hsorted, hmem⟩ := hlists folders hfolders
  have hmarked : ∀ below ∈ [[], ["a"], ["a", "c"], ["a-b"]],
      (folderAt dashedDisk ["app"] below).files ≠ [] ↔ below ∈ [["a", "c"], ["a-b"]] := by decide
  have hplaces : places = [["a", "c"], ["a-b"]] := by
    refine hsorted.eq_of_mem_iff (by decide) fun below => ?_
    rw [hmem, isReached_dashedTree_iff]
    constructor
    · rintro ⟨hreached, hfiles⟩
      exact (hmarked below hreached).mp hfiles
    · intro hlisted
      have hreached : below ∈ [[], ["a"], ["a", "c"], ["a-b"]] := by
        simp only [List.mem_cons] at hlisted ⊢
        tauto
      exact ⟨hreached, (hmarked below hreached).mpr hlisted⟩
  rw [hfolders, hplaces]
  decide

def longTarget : String := String.ofList (List.replicate 256 'x')

theorem toList_longTarget : longTarget.toList = List.replicate 256 'x' := String.toList_ofList

theorem utf8ByteSize_longTarget : longTarget.utf8ByteSize = 256 := utf8ByteSize_ofList_replicate 256 'x'

/-- A project with a link to a name that no directory can hold, and a folder with a settings file. -/
def longLinkTree : List (String × Node) :=
  [(".env", .link longTarget), ("a", .dir [(".env", .file [])])]

def longLinkDisk : Disk := projectDisk longLinkTree

theorem hasFileNames_longLinkDisk : HasFileNames longLinkDisk.top :=
  hasFileNames_projectDisk <| hasFileNames_dir (by decide) (by decide)
    (List.forall_mem_cons.mpr
      ⟨hasFileNames_of_not_dir rfl, List.forall_mem_singleton.mpr hasFileNames_settings⟩)

theorem locate?_longLinkDisk : longLinkDisk.locate? (.ofRoot ["app", ".env"]) = .error .nameTooLong := by
  have hroot : IsDirectory longLinkDisk ["app"] longLinkTree := isDirectory_projectDisk longLinkTree
  have htext : Disk.checkText (.ofRoot ["app", ".env"]) = .ok () := by decide
  have hplain : ∀ c ∈ longTarget.toList, (c == '/') = false := by
    intro c hc
    rw [toList_longTarget] at hc
    rw [List.eq_of_mem_replicate hc]
    decide
  have hlong : isTooLong longTarget = true := by
    rw [isTooLong, utf8ByteSize_longTarget]
    rfl
  have hlink : locateFrom? longLinkDisk.top maxLinks ["app"] [".env"] = .error .nameTooLong :=
    locateFrom?_of_longLink (by decide) (by decide) rfl hplain hlong
  unfold Disk.locate?
  rw [htext]
  exact (locateFrom?_append_of_dir hroot.names hroot.short hroot.get_eq).trans hlink

/-- **A link to a name that is too long hides the folders.** The search gives no list at all, though there is
a folder with a settings file. -/
theorem discover_fails_on_longLinkDisk :
    IsReached (.dir longLinkTree) 8 ["a"] ∧ (folderAt longLinkDisk ["app"] ["a"]).files = [".env"] ∧
      ∀ folders, discover longLinkDisk (.ofRoot ["app"]) 8 ≠ .ok folders := by
  have hroot : IsDirectory longLinkDisk ["app"] longLinkTree := isDirectory_projectDisk longLinkTree
  have hreached : IsReached (.dir longLinkTree) 8 ["a"] :=
    ⟨⟨_, .into (List.mem_cons_of_mem _ List.mem_cons_self) (.here _)⟩, by decide, by decide⟩
  have hself : IsReached (.dir longLinkTree) 8 [] := ⟨⟨_, .here _⟩, by decide, by decide⟩
  refine ⟨hreached, by decide, fun folders hfolders => ?_⟩
  obtain ⟨hall, -⟩ :=
    (discover_eq_ok_iff hasFileNames_longLinkDisk hroot.resolve_eq hroot (by decide)).mp hfolders
  exact hall [] hself ".env" (by decide) locate?_longLinkDisk

end EnvFill.Project
