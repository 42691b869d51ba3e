import EnvFill.Proofs.AlikeDisks
import EnvFill.Proofs.EditedFiles

/-!
# Scans of disks that differ in values

Scans look into settings files for their keys only, and pass over them when they look for references. So
on disks that differ in values they find the same, and compare it with files that set the same keys.
-/

namespace EnvFill.Project

open Storage Node EnvFile Fill Ignore Text

variable {disk other : Disk} {folder : Location} {path : Pathname} {maxDepth : Int}

theorem mapM_eq_some {α β : Type} {f : α → Option β} {g : α → β} {items : List α}
    (hall : ∀ item ∈ items, f item = some (g item)) : items.mapM f = some (items.map g) := by
  induction items with
  | nil => rfl
  | cons item items ih =>
    rw [List.mapM_cons, hall item List.mem_cons_self,
      ih fun other hother => hall other (List.mem_cons_of_mem item hother)]
    rfl

theorem mapM_eq_none {α β : Type} {f : α → Option β} {items : List α} {item : α}
    (hmem : item ∈ items) (hnone : f item = none) : items.mapM f = none := by
  induction items with
  | nil => exact absurd hmem List.not_mem_nil
  | cons first items ih =>
    rw [List.mapM_cons]
    rcases List.mem_cons.mp hmem with rfl | hrest
    · rw [hnone]
      rfl
    · rw [ih hrest]
      cases f first <;> rfl

/-- The settings files are those that are files, if there is an answer for every entry of such a name. -/
theorem mem_settingsFilesOf_iff {entries : List (String × Node)} {name : String} :
    name ∈ settingsFilesOf disk folder entries ↔
      (∀ entry ∈ entries, isSettingsName entry.1 = true → entryIsFile? disk folder entry ≠ none) ∧
        ∃ child, (name, child) ∈ entries ∧ isSettingsName name = true ∧
          entryIsFile? disk folder (name, child) = some true := by
  have hnamed : ∀ entry, entry ∈ entries.filter (fun entry => isSettingsName entry.1) ↔
      entry ∈ entries ∧ isSettingsName entry.1 = true := fun entry => List.mem_filter
  unfold settingsFilesOf
  dsimp only
  generalize entries.filter (fun entry => isSettingsName entry.1) = named at hnamed
  by_cases hall : ∀ entry ∈ entries, isSettingsName entry.1 = true →
      entryIsFile? disk folder entry ≠ none
  · have hanswers : named.mapM (entryIsFile? disk folder) =
        some (named.map fun entry => (entryIsFile? disk folder entry).getD false) := by
      refine mapM_eq_some fun entry hentry => ?_
      obtain ⟨hmem, hsettings⟩ := (hnamed entry).mp hentry
      cases hanswer : entryIsFile? disk folder entry with
      | none => exact absurd hanswer (hall entry hmem hsettings)
      | some answer => rfl
    rw [hanswers]
    dsimp only
    rw [← List.map_prod_left_eq_zip, Sorted.mem_ofList, and_iff_right hall]
    simp only [List.filter_map, List.map_map, List.mem_map, List.mem_filter, hnamed, Prod.exists,
      Function.comp_apply]
    constructor
    · rintro ⟨_, child, ⟨⟨hmem, hsettings⟩, htrue⟩, rfl⟩
      refine ⟨child, hmem, hsettings, ?_⟩
      cases hanswer : entryIsFile? disk folder (_, child) with
      | none => simp [hanswer] at htrue
      | some answer => simpa [hanswer] using htrue
    · rintro ⟨child, hmem, hsettings, htrue⟩
      exact ⟨name, child, ⟨⟨hmem, hsettings⟩, by rw [htrue]; rfl⟩, rfl⟩
  · refine iff_of_false ?_ fun hboth => hall hboth.1
    push Not at hall
    obtain ⟨entry, hmem, hsettings, hnone⟩ := hall
    rw [mapM_eq_none ((hnamed entry).mpr ⟨hmem, hsettings⟩) hnone]
    exact List.not_mem_nil

theorem entryIsFile?_eq (halike : AlikeDisks disk other) {name : Option String} {key : String}
    {child twin : Node} (hsame : AlikeNodes name child twin) :
    entryIsFile? disk folder (key, child) = entryIsFile? other folder (key, twin) := by
  cases hsame with
  | dir => rfl
  | file => rfl
  | settings => rfl
  | link target =>
    unfold entryIsFile?
    dsimp only
    rw [halike.trees.sameShape.locateFrom?_eq]
    split
    · rename_i place _
      have hplace := halike.trees place
      generalize disk.top.get? place = here at hplace
      generalize other.top.get? place = there at hplace
      cases hplace with
      | none => rfl
      | some hnodes => rw [Option.any_some, Option.any_some, hnodes.isDir_eq]
    · rfl
    · rfl

theorem mem_settingsFilesOf_of_alike (halike : AlikeDisks disk other) {name : Option String}
    {entries others : List (String × Node)} (hsame : AlikeTrees name (.dir entries) (.dir others))
    (hentries : (entries.map Prod.fst).Nodup) (hothers : (others.map Prod.fst).Nodup) {key : String}
    (hkey : key ∈ settingsFilesOf disk folder entries) :
    key ∈ settingsFilesOf other folder others := by
  obtain ⟨hall, child, hchild, hsettings, hfile⟩ := mem_settingsFilesOf_iff.mp hkey
  refine mem_settingsFilesOf_iff.mpr ⟨?_, ?_⟩
  · rintro ⟨key, twin⟩ htwin hnamed
    obtain ⟨child, hchild, htrees⟩ := hsame.symm.lookup ((lookup_eq_some_iff hothers).mpr htwin)
    rw [← entryIsFile?_eq halike htrees.symm.nodes]
    exact hall _ (mem_of_lookup hchild) hnamed
  · obtain ⟨twin, htwin, htrees⟩ := hsame.lookup ((lookup_eq_some_iff hentries).mpr hchild)
    rw [entryIsFile?_eq halike htrees.nodes] at hfile
    exact ⟨twin, mem_of_lookup htwin, hsettings, hfile⟩

theorem settingsFiles_matching (halike : AlikeDisks disk other) (path : Pathname) :
    Matching (fun names others => ∀ name, name ∈ names ↔ name ∈ others) (settingsFiles disk path)
      (settingsFiles other path) := by
  unfold settingsFiles
  rw [← halike.locate?_eq]
  split
  · exact .error _
  · exact .ok fun _ => Iff.rfl
  · rename_i place _
    refine .ok fun name => ?_
    have hplace := halike.trees place
    cases hone : disk.top.get? place with
    | none =>
      rw [hone] at hplace
      generalize other.top.get? place = there at hplace
      cases hplace
      exact Iff.rfl
    | some child =>
      obtain ⟨twin, htwo, hnodes⟩ := halike.trees.exists_twin hone
      obtain ⟨htrees, hnames, hothers⟩ := halike.below hone htwo
      rw [htwo]
      cases hnodes with
      | link => exact Iff.rfl
      | file => exact Iff.rfl
      | settings => exact Iff.rfl
      | dir entries others =>
        have hentries := (hnames _ _ (.here _)).1
        have hothers := (hothers _ _ (.here _)).1
        exact ⟨mem_settingsFilesOf_of_alike halike htrees hentries hothers,
          mem_settingsFilesOf_of_alike halike.symm htrees.symm hothers hentries⟩

theorem defaultTarget_eq (halike : AlikeDisks disk other) (path : Pathname) :
    defaultTarget disk path = defaultTarget other path := by
  refine matching_eq_iff.mp ((settingsFiles_matching halike path).bind fun names others hsame => ?_)
  have hcontains : names.contains = others.contains := by
    funext name
    rw [Bool.eq_iff_iff, List.contains_iff_mem, List.contains_iff_mem, hsame]
  rw [hcontains]
  exact .ok rfl

theorem readSettings_matching (halike : AlikeDisks disk other) (file : Pathname) :
    Matching (fun entries others : Entries => ∀ key, key ∈ entries.keys ↔ key ∈ others.keys)
      (readSettings disk file) (readSettings other file) := by
  refine (halike.bytes? file).followed.bind fun content content' hsame => ?_
  cases hsame with
  | none => exact .ok fun _ => Iff.rfl
  | some hsame =>
    refine .ok fun key => ?_
    rcases hsame with rfl | hsame
    · exact Iff.rfl
    · exact hsame.mem_keys_ofBytes_iff

theorem variablesOfFile_eq (halike : AlikeDisks disk other) (folder : Location) (name : String) :
    variablesOfFile disk folder name = variablesOfFile other folder name := by
  have hkeys : ∀ disk : Disk, variablesOfFile disk folder name =
      (followed (disk.bytes? (.ofRoot (folder ++ [name])))).map keysNamed := by
    intro disk
    unfold variablesOfFile
    cases followed (disk.bytes? (.ofRoot (folder ++ [name]))) with
    | error fault => rfl
    | ok content => cases content <;> rfl
  rw [hkeys, hkeys]
  refine matching_eq_iff.mp ((halike.bytes? _).followed.map fun content content' hsame => ?_)
  cases hsame with
  | none => rfl
  | some hsame =>
    rcases hsame with rfl | hsame
    · rfl
    · exact hsame.keysNamed_eq

theorem scanRoot_matching (halike : AlikeDisks disk other) (path : Pathname) :
    Matching (fun one two => scanRoot disk path = .ok one ∧ scanRoot other path = .ok two ∧
      one.1 = two.1 ∧ disk.top.get? one.1 = some one.2 ∧ other.top.get? two.1 = some two.2)
      (scanRoot disk path) (scanRoot other path) := by
  apply Matching.results
  unfold scanRoot
  rw [← halike.resolve_eq]
  refine (matching_eq_iff.mpr rfl).bind ?_
  rintro place _ rfl
  rw [← halike.findPlace_eq]
  refine (matching_eq_iff.mpr rfl).bind ?_
  rintro found _ rfl
  cases found with
  | none => exact .error _
  | some folder =>
    dsimp only
    have hplace := halike.trees folder
    cases hone : disk.top.get? folder with
    | none =>
      rw [hone] at hplace
      cases htwo : other.top.get? folder with
      | none => exact .error _
      | some twin =>
        rw [htwo] at hplace
        cases hplace
    | some child =>
      obtain ⟨twin, htwo, hnodes⟩ := halike.trees.exists_twin hone
      rw [htwo]
      cases hnodes with
      | link => exact .error _
      | file => exact .error _
      | settings => exact .error _
      | dir entries others => exact .ok ⟨rfl, hone, htwo⟩

theorem scanSettings_eq (halike : AlikeDisks disk other) (path : Pathname) :
    scanSettings disk path = scanSettings other path := by
  refine matching_eq_iff.mp ((scanRoot_matching halike path).bind ?_)
  rintro ⟨place, node⟩ ⟨_, twin⟩ ⟨-, -, rfl, -⟩
  dsimp only
  have hfiles : variablesOfFile disk place = variablesOfFile other place :=
    funext (variablesOfFile_eq halike place)
  rw [hfiles]
  exact matching_eq_iff.mpr rfl

/-- A file of a folder that is not one of the usual settings files is the same. -/
theorem bytes?_eq_of_isFolder (halike : AlikeDisks disk other) {entries : List (String × Node)}
    (hfolder : IsFolder disk folder entries) {name : String} (hname : IsName name)
    (hother : name ∉ Name.writableFiles) :
    disk.bytes? (.ofRoot (folder ++ [name])) = other.bytes? (.ofRoot (folder ++ [name])) := by
  refine matching_eq_iff.mp ((halike.find _).map fun _ _ hrel => ?_)
  cases hrel with
  | none => rfl
  | some hfound =>
    obtain ⟨place, hlocate, hone, htwo⟩ := hfound
    obtain ⟨-, hfrom⟩ := Disk.locate?_eq_ok_iff.mp hlocate
    obtain rfl : place = folder ++ [name] := by
      have hchild := hfolder.isDirectory.locateFrom?_child hname (hfolder.lookup_ne_link _)
      change locateFrom? disk.top maxLinks [] (folder ++ [name]) = _ at hfrom
      rw [hfrom] at hchild
      split at hchild
      · simp at hchild
      · split at hchild
        · exact Except.ok.inj hchild
        · simp at hchild
    have hnodes := halike.alikeNodes hone htwo
    rw [List.getLast?_concat] at hnodes
    exact hnodes.bytes?_eq hother

/-- **A scan through code reads the same.** It passes over the files that may differ. -/
theorem scanCodeIn_eq {name : Option String} {one two : Node} (hsame : AlikeTrees name one two)
    (hone : HasProperNames one) (htwo : HasProperNames two) (hlinks : one.linkCount = 0)
    (filter : ScanFilter) (root : Location) (maxDepth : Int) :
    scanCodeIn disk root one filter maxDepth = scanCodeIn other root two filter maxDepth := by
  have hfiles : (walkFrom (isEntered filter maxDepth) [] one).flatMap (filesRead disk root filter) =
      (walkFrom (isEntered filter maxDepth) [] two).flatMap (filesRead other root filter) := by
    refine hsame.flatMap_walkFrom hone htwo fun place name entries others hvisit htrees hnames hothers => ?_
    unfold filesRead entriesListed
    dsimp only
    split
    swap
    · rfl
    rw [List.filterMap_eq_flatMap_toList, List.filterMap_eq_flatMap_toList]
    apply htrees.flatMap_byName (hnames _ _ (.here _)).1 (hothers _ _ (.here _)).1
    intro key child twin hchild htwin htrees
    have hcount := linkCount_of_mem (linkCount_of_mem_walkFrom hlinks hvisit) hchild
    have htwinCount : twin.linkCount = 0 := by
      rw [← htrees.linkCount_eq (hnames.of_holds (.into hchild (.here _)))
        (hothers.of_holds (.into htwin (.here _)))]
      exact hcount
    dsimp only
    by_cases hread : isRead filter (place ++ [key]) = true
    · have hkey : key ∉ Name.writableFiles := by
        intro hfile
        have hcode := (isRead_concat_iff.mp hread).1.2
        rw [not_isCodeFile_of_mem_writableFiles key hfile] at hcode
        exact Bool.false_ne_true hcode
      rw [if_pos hread, if_pos hread, textBytes?, textBytes?, entryBytes?_of_linkCount hcount,
        entryBytes?_of_linkCount htwinCount, htrees.nodes.bytes?_eq hkey]
    · rw [if_neg hread, if_neg hread]
  unfold scanCodeIn
  rw [hfiles]

theorem isOwnProject_of_isFolder (halike : AlikeDisks disk other) {entries : List (String × Node)}
    (hfolder : IsFolder disk folder entries) :
    isOwnProject disk (.ofRoot folder) = isOwnProject other (.ofRoot folder) := by
  rw [isOwnProject_eq, isOwnProject_eq, bytes?_eq_of_isFolder halike hfolder (by decide) (by decide)]

theorem scanCode_eq (halike : AlikeDisks disk other) (hnames : ∀ name ∈ folder, IsName name)
    (hlinks : HasNoLinks disk folder) (extra : List String) (maxDepth : Int) :
    scanCode disk (.ofRoot folder) extra maxDepth = scanCode other (.ofRoot folder) extra maxDepth := by
  refine matching_eq_iff.mp ((scanRoot_matching halike _).bind ?_)
  rintro ⟨place, node⟩ ⟨_, twin⟩ ⟨hroot, -, rfl, hone, htwo⟩
  obtain ⟨rfl, entries, rfl, hfolder⟩ := isFolder_of_scanRoot hnames hlinks hroot
  obtain ⟨htrees, hproper, hothers⟩ := halike.below hone htwo
  dsimp only
  rw [isOwnProject_of_isFolder halike hfolder]
  refine (matching_eq_iff.mpr rfl).bind ?_
  rintro own _ rfl
  split
  · exact .error _
  · rename_i filter _
    rw [scanCodeIn_eq htrees hproper hothers (hlinks.below _ hone) filter place maxDepth]
    exact .ok rfl

/-- **A scan finds the same.** -/
theorem scan_eq (halike : AlikeDisks disk other) (hnames : ∀ name ∈ folder, IsName name)
    (hlinks : HasNoLinks disk folder) (deep : Bool) (extra : List String) (maxDepth : Int) :
    scan disk (.ofRoot folder) deep extra maxDepth = scan other (.ofRoot folder) deep extra maxDepth := by
  unfold scan
  rw [scanCode_eq halike hnames hlinks, scanSettings_eq halike]

end EnvFill.Project
