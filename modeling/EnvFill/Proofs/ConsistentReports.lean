import EnvFill.Proofs.ReportedNames
import EnvFill.Proofs.UndisclosedValues

/-!
# Reports that fit together

The document lists names, flags, files and counts side by side, and the exit code comes from the counts.
All of them follow from what is found and from the settings: the counts are counts of the flags, the sums
are sums of the counts, and the exit code tells whether a flag is off.
-/

namespace EnvFill.Sorted

variable {name : String} {names : List String}

theorem pairwise_insert (hnames : names.Pairwise (· < ·)) : (insert name names).Pairwise (· < ·) := by
  induction names with
  | nil => exact List.pairwise_singleton _ name
  | cons head rest ih =>
    obtain ⟨hhead, hrest⟩ := List.pairwise_cons.mp hnames
    unfold insert
    split
    · rename_i hbefore
      refine List.pairwise_cons.mpr ⟨List.forall_mem_cons.mpr ⟨hbefore, fun other hother => ?_⟩, hnames⟩
      exact hbefore.trans (hhead other hother)
    · rename_i hbefore
      split
      · exact hnames
      · rename_i hne
        have hafter : head < name := lt_of_le_of_ne (not_lt.mp hbefore) (Ne.symm hne)
        refine List.pairwise_cons.mpr ⟨fun other hother => ?_, ih hrest⟩
        rcases mem_insert.mp hother with rfl | hother
        · exact hafter
        · exact hhead other hother

theorem pairwise_ofList (names : List String) : (ofList names).Pairwise (· < ·) := by
  induction names with
  | nil => exact .nil
  | cons name names ih => exact pairwise_insert ih

theorem ofList_congr {others : List String} (hnames : ∀ name, name ∈ names ↔ name ∈ others) :
    ofList names = ofList others := by
  have hnodup : ∀ names, (ofList names).Nodup := fun names => (pairwise_ofList names).imp ne_of_lt
  have hperm : (ofList names).Perm (ofList others) := by
    rw [List.perm_ext_iff_of_nodup (hnodup names) (hnodup others)]
    intro name
    rw [mem_ofList, mem_ofList, hnames]
  refine hperm.eq_of_pairwise ?_ (pairwise_ofList names) (pairwise_ofList others)
  exact fun a b _ _ hab hba => absurd hba (not_lt_of_gt hab)

end EnvFill.Sorted

namespace EnvFill.Fill

structure Found.IsOrdered (found : Found) : Prop where
  toList_eq : found.toList = found.names.map fun name => (name, found.files name)
  names : found.names.Pairwise (· < ·)
  files_ne_nil : ∀ name ∈ found.names, found.files name ≠ []
  files : ∀ name, (found.files name).Pairwise (· < ·)

theorem Found.isOrdered_ofMentions (mentions : List (String × String)) :
    (Found.ofMentions mentions).IsOrdered := by
  have hnames : (Found.ofMentions mentions).names = Sorted.ofList (mentions.map Prod.fst) := by
    unfold names ofMentions
    rw [List.map_map]
    exact List.map_id _
  have hfiles : ∀ name, (Found.ofMentions mentions).files name =
      if name ∈ Sorted.ofList (mentions.map Prod.fst) then
        Sorted.ofList ((mentions.filter fun mention => mention.1 == name).map Prod.snd)
      else [] := by
    intro name
    unfold files ofMentions
    rw [lookup_map_self]
    split <;> rfl
  constructor
  · rw [hnames]
    refine List.map_congr_left fun name hname => ?_
    rw [hfiles, if_pos hname]
  · rw [hnames]
    exact Sorted.pairwise_ofList _
  · intro name hname
    obtain ⟨file, hfile⟩ := Project.exists_mem_files_ofMentions hname
    exact List.ne_nil_of_mem hfile
  · intro name
    rw [hfiles]
    split
    · exact Sorted.pairwise_ofList _
    · exact .nil

theorem isSet_iff {existing : EnvFile.Entries} {name : String} : isSet existing name = true ↔
    ∃ value, existing.get? name = some value ∧ Text.strip value.toList ≠ [] := by
  unfold isSet
  cases existing.get? name with
  | none => simp
  | some value => simp [Text.isAllBlank, Text.strip_eq_nil_iff]

end EnvFill.Fill

namespace EnvFill.Project

open Storage Fill

variable {disk : Disk} {path : Pathname} {deep : Bool} {extra : List String} {maxDepth : Int}
  {found : Found}

theorem isOrdered_of_scan (hscan : scan disk path deep extra maxDepth = .ok found) : found.IsOrdered := by
  cases deep with
  | false =>
    obtain ⟨_, _, -, -, rfl⟩ := scanSettings_returns_iff.mp hscan
    exact Found.isOrdered_ofMentions _
  | true =>
    obtain ⟨code, hcode, rfl⟩ := except_map_eq_ok_iff.mp hscan
    obtain ⟨_, _, _, _, -, -, -, rfl⟩ := scanCode_returns_iff.mp hcode
    exact Found.isOrdered_ofMentions _

end EnvFill.Project

namespace EnvFill.Report

open Fill

structure ListedVariable where
  name : String
  isSet : Bool
  files : List String

structure ListedFolder where
  folder : String
  target : String
  mode : String
  stats : Stats
  items : List ListedVariable

structure Listing where
  folders : List ListedFolder
  total : Int
  alreadySet : Int
  missing : Int

def ListedVariable.json (item : ListedVariable) : Json :=
  .object
    [("name", .string item.name), ("set", .bool item.isSet),
      ("files", .array (item.files.map .string))]

def ListedFolder.json (listed : ListedFolder) : Json :=
  .object
    [("folder", .string listed.folder), ("target", .string listed.target),
      ("mode", .string listed.mode), ("stats", statsJson listed.stats),
      ("variables", .array (listed.items.map ListedVariable.json))]

def Listing.json (listing : Listing) : Json :=
  .object
    [("folders", .array (listing.folders.map ListedFolder.json)),
      ("summary", .object
        [("total", .number listing.total), ("already_set", .number listing.alreadySet),
          ("missing", .number listing.missing)])]

def Listing.text (listing : Listing) : String := listing.json.render ++ "\n"

def ListedFolder.names (listed : ListedFolder) : List String := listed.items.map ListedVariable.name

def ListedFolder.flagged (listed : ListedFolder) (isSet : Bool) : List ListedVariable :=
  listed.items.filter (·.isSet == isSet)

structure ListedFolder.HasCounts (listed : ListedFolder) : Prop where
  total : listed.stats.total = listed.items.length
  alreadySet : listed.stats.alreadySet = (listed.flagged true).length
  missing : listed.stats.missing = (listed.flagged false).length

structure Listing.HasSums (listing : Listing) : Prop where
  total : listing.total = (listing.folders.map (·.stats.total)).sum
  alreadySet : listing.alreadySet = (listing.folders.map (·.stats.alreadySet)).sum
  missing : listing.missing = (listing.folders.map (·.stats.missing)).sum

/-! ### What the reports come to -/

def ScanReport.listed (report : ScanReport) : ListedFolder where
  folder := report.folder
  target := report.target
  mode := if report.deep then "deep" else "env-files"
  stats := report.stats
  items := report.found.toList.map fun (name, files) => ⟨name, report.isSet name, files⟩

def listingOf (reports : List ScanReport) : Listing where
  folders := reports.map ScanReport.listed
  total := sumOf Stats.total reports
  alreadySet := sumOf Stats.alreadySet reports
  missing := sumOf Stats.missing reports

theorem json_listed (report : ScanReport) : report.listed.json = reportJson report := by
  unfold ListedFolder.json ScanReport.listed reportJson
  rw [List.map_map]
  rfl

theorem text_listingOf (reports : List ScanReport) : (listingOf reports).text = documentText reports := by
  have hfolders : (reports.map ScanReport.listed).map ListedFolder.json = reports.map reportJson := by
    rw [List.map_map]
    exact List.map_congr_left fun report _ => json_listed report
  unfold Listing.text Listing.json listingOf documentText documentJson
  rw [hfolders]

theorem sumOf_eq (count : Stats → Int) (reports : List ScanReport) :
    sumOf count reports = ((reports.map ScanReport.listed).map fun listed => count listed.stats).sum := by
  induction reports with
  | nil => rfl
  | cons report reports ih =>
    rw [List.map_cons, List.map_cons, List.sum_cons, ← ih]
    rfl

theorem hasSums_listingOf (reports : List ScanReport) : (listingOf reports).HasSums :=
  ⟨sumOf_eq _ reports, sumOf_eq _ reports, sumOf_eq _ reports⟩

theorem names_listed (report : ScanReport) : report.listed.names = report.found.names := by
  unfold ListedFolder.names ScanReport.listed Found.names
  rw [List.map_map]
  rfl

theorem length_flagged_listed (report : ScanReport) (isSet : Bool) :
    (report.listed.flagged isSet).length =
      (report.found.names.filter (report.isSet · == isSet)).length := by
  unfold ListedFolder.flagged ScanReport.listed Found.names
  rw [List.filter_map, List.length_map, List.filter_map, List.length_map]
  rfl

theorem hasCounts_listed (report : ScanReport) : report.listed.HasCounts := by
  have hlength : report.listed.items.length = report.found.names.length := by
    rw [← names_listed, ListedFolder.names, List.length_map]
  have hset : (report.listed.flagged true).length =
      (report.found.names.filter report.isSet).length := by
    rw [length_flagged_listed]
    simp
  have hmissing : (report.listed.flagged false).length =
      (report.found.names.filter fun name => !report.isSet name).length := by
    rw [length_flagged_listed]
    simp
  have hsum := List.length_eq_length_filter_add (l := report.found.names) report.isSet
  constructor
  · rw [hlength]
    rfl
  · rw [hset]
    rfl
  · have hrest : report.listed.stats.missing =
        report.found.names.length - (report.found.names.filter report.isSet).length := rfl
    omega

/-- There is a count of variables that are missing just where one is listed as not set. -/
theorem missing_pos_iff (report : ScanReport) :
    0 < report.stats.missing ↔ ∃ item ∈ report.listed.items, item.isSet = false := by
  have hcount : report.stats.missing = (report.listed.flagged false).length :=
    (hasCounts_listed report).missing
  rw [hcount, Int.natCast_pos, List.length_pos_iff_exists_mem]
  unfold ListedFolder.flagged
  simp only [List.mem_filter, beq_iff_eq]

end EnvFill.Report

namespace EnvFill.Command

open Procedure Storage EnvFile Fill Project Report Text

variable {config : Config} {disk : Disk} {root : Location} {folder : Folder} {folders : List Folder}
  {target : String} {world after : World} {code : Nat} {report : ScanReport} {reports : List ScanReport}

/-- What the document says of a folder is what a scan of it finds, and what the settings that it is
compared with say of that. -/
structure IsListed (config : Config) (disk : Disk) (folder : Folder) (listed : ListedFolder) : Prop where
  path : listed.folder = folder.path
  mode : listed.mode = if config.deep then "deep" else "env-files"
  target : comparedFile config disk folder = .ok listed.target
  found : ∃ found, scan disk (.ofRoot folder.location) config.deep config.extraIgnore
      config.scanMaxDepth = .ok found ∧
    listed.names = found.names ∧ ∀ item ∈ listed.items, item.files = found.files item.name
  isSet : ∃ existing,
    readSettings disk ((Pathname.ofRoot folder.location).join (.ofString listed.target)) = .ok existing ∧
      ∀ item ∈ listed.items, item.isSet = true ↔
        ∃ value, existing.get? item.name = some value ∧ strip value.toList ≠ []
  names : listed.names.Pairwise (· < ·)
  files : ∀ item ∈ listed.items, item.files ≠ [] ∧ item.files.Pairwise (· < ·)
  counts : listed.HasCounts

theorem isListed_of_reportOn (hreport : reportOn config disk folder = .ok report) :
    IsListed config disk folder report.listed := by
  rw [reportOn_eq] at hreport
  obtain ⟨found, hscan, hreport⟩ := except_bind_eq_ok_iff.mp hreport
  obtain ⟨file, hfile, hreport⟩ := except_bind_eq_ok_iff.mp hreport
  obtain ⟨existing, hexisting, hreport⟩ := except_bind_eq_ok_iff.mp hreport
  obtain rfl := Except.ok.inj hreport
  have hordered := isOrdered_of_scan hscan
  have hitems : ∀ item ∈ ScanReport.listed ⟨folder.path, file, config.deep, found, existing⟩ |>.items,
      item.name ∈ found.names ∧ item.files = found.files item.name ∧
        item.isSet = Fill.isSet existing item.name := by
    intro item hitem
    obtain ⟨pair, hpair, rfl⟩ := List.mem_map.mp hitem
    rw [hordered.toList_eq] at hpair
    obtain ⟨name, hname, rfl⟩ := List.mem_map.mp hpair
    exact ⟨hname, rfl, rfl⟩
  constructor
  · rfl
  · rfl
  · exact hfile
  · exact ⟨found, hscan, names_listed _, fun item hitem => (hitems item hitem).2.1⟩
  · refine ⟨existing, hexisting, fun item hitem => ?_⟩
    rw [(hitems item hitem).2.2, isSet_iff]
  · rw [names_listed]
    exact hordered.names
  · intro item hitem
    obtain ⟨hname, hfiles, -⟩ := hitems item hitem
    rw [hfiles]
    exact ⟨hordered.files_ne_nil _ hname, hordered.files _⟩
  · exact hasCounts_listed _

/-- The command has no directory to work in, or one of the folders cannot be scanned. -/
def IsRefused (config : Config) (target : String) (disk : Disk) : Prop :=
  ∃ root, disk.resolve (.ofString target) = .ok root ∧
    (disk.isDir (.ofRoot root) = .ok false ∨
      ∃ folders error, reportedFolders config root disk = .ok folders ∧
        folders.mapM (reportOn config disk) = .error error ∧ error.isReported = true)

theorem not_isRefused {entries : List (String × Node)} (hroot : disk.resolve (.ofString target) = .ok root)
    (hfolder : IsFolder disk root entries) (hfolders : reportedFolders config root disk = .ok [folder])
    (hreport : reportOn config disk folder = .ok report) : ¬IsRefused config target disk := by
  rintro ⟨other, hother, hrefused⟩
  obtain rfl := Except.ok.inj (hroot.symm.trans hother)
  rcases hrefused with hnowhere | ⟨others, error, hothers, herror, -⟩
  · exact absurd (hfolder.isDirectory.isDir_eq.symm.trans hnowhere) (by simp)
  · obtain rfl := Except.ok.inj (hfolders.symm.trans hothers)
    have hreports : [folder].mapM (reportOn config disk) = .ok [report] := by
      rw [List.mapM_cons, hreport]
      rfl
    exact absurd (hreports.symm.trans herror) (by simp)

/-- **A directory is chosen**, or there is none at the place that the target leads to. -/
theorem of_succeeds_chooseRoot {chosen : Option Location}
    (hchoose : Succeeds (chooseRoot target) world chosen after) :
    ∃ root, world.disk.resolve (.ofString target) = .ok root ∧ after.disk = world.disk ∧
      after.output = world.output ∧
        (chosen = some root ∨ chosen = none ∧ world.disk.isDir (.ofRoot root) = .ok false) := by
  obtain ⟨root, _, hroot, hthere⟩ := succeeds_bind_iff.mp hchoose
  obtain ⟨hroot, rfl⟩ := succeeds_lookUp_iff.mp hroot
  obtain ⟨there, _, hfound, hgoesOn⟩ := succeeds_bind_iff.mp hthere
  obtain ⟨hfound, rfl⟩ := succeeds_lookUp_iff.mp hfound
  refine ⟨root, followed_eq_ok_iff.mp hroot, ?_⟩
  have hnowhere : ∀ {text : String} {before : World},
      Succeeds (do display [Screen.line text]; return none) before chosen after →
        after.disk = before.disk ∧ after.output = before.output ∧ chosen = none := by
    intro text before hshow
    obtain ⟨_, _, hdisplay, hnone⟩ := succeeds_bind_iff.mp hshow
    obtain rfl := succeeds_display_iff.mp hdisplay
    obtain ⟨rfl, rfl⟩ := succeeds_pure_iff.mp hnone
    exact ⟨rfl, rfl, rfl⟩
  cases there with
  | false =>
    obtain ⟨hdisk, houtput, hchosen⟩ := hnowhere hgoesOn
    obtain ⟨node, hnode, hnone⟩ := except_map_eq_ok_iff.mp (followed_eq_ok_iff.mp hfound)
    obtain rfl : node = none := Option.not_isSome_iff_eq_none.mp (by rw [hnone]; decide)
    refine ⟨hdisk, houtput, .inr ⟨hchosen, ?_⟩⟩
    rw [Disk.isDir, hnode]
    rfl
  | true =>
    obtain ⟨isDir, _, hdir, hends⟩ := succeeds_bind_iff.mp hgoesOn
    obtain ⟨hdir, rfl⟩ := succeeds_lookUp_iff.mp hdir
    cases isDir with
    | false =>
      obtain ⟨hdisk, houtput, hchosen⟩ := hnowhere hends
      exact ⟨hdisk, houtput, .inr ⟨hchosen, followed_eq_ok_iff.mp hdir⟩⟩
    | true =>
      obtain ⟨rfl, rfl⟩ := succeeds_pure_iff.mp hends
      exact ⟨rfl, rfl, .inl rfl⟩

theorem exit_eq_one_iff (reports : List ScanReport) :
    (if reports.any fun report => 0 < report.stats.missing then 1 else 0) = 1 ↔
      ∃ listed ∈ (listingOf reports).folders, ∃ item ∈ listed.items, item.isSet = false := by
  have hany : (reports.any fun report => 0 < report.stats.missing) = true ↔
      ∃ listed ∈ (listingOf reports).folders, ∃ item ∈ listed.items, item.isSet = false := by
    rw [List.any_eq_true]
    unfold listingOf
    simp only [decide_eq_true_eq, missing_pos_iff, List.mem_map, exists_exists_and_eq_and]
  rw [← hany]
  split
  · rename_i hmissing
    exact iff_of_true rfl hmissing
  · rename_i hmissing
    exact iff_of_false Nat.zero_ne_one hmissing

theorem reportedFolders_eq_ok_iff : reportedFolders config root disk = .ok folders ↔
    ∃ found, discover disk (.ofRoot root) config.maxDepth = .ok found ∧
      folders = if found.isEmpty then [⟨".", root, []⟩] else found := by
  unfold reportedFolders
  rw [except_bind_eq_ok_iff]
  refine exists_congr fun found => and_congr_right fun _ => ?_
  cases found with
  | nil => exact ⟨fun hok => (Except.ok.inj hok).symm, fun heq => congrArg Except.ok heq.symm⟩
  | cons first rest => exact ⟨fun hok => (Except.ok.inj hok).symm, fun heq => congrArg Except.ok heq.symm⟩

/-- The document on the reports lists the folders that they are on. -/
theorem forall₂_isListed (hreports : folders.mapM (reportOn config disk) = .ok reports) :
    List.Forall₂ (IsListed config disk) folders (listingOf reports).folders :=
  List.forall₂_map_right_iff.mpr <|
    (forall₂_of_mapM hreports).imp fun _ _ hreport => isListed_of_reportOn hreport

/-- **The document and the exit code fit together.** Where the command ends with a report, the document
lists the folders that are found in order, or else the project itself, and each of them rightly. The exit
code is one just where the document lists a variable that is not set. -/
theorem scanProject_report_is_consistent
    (hrun : Succeeds (scanProject config target .json) world code after) :
    (IsRefused config target world.disk ∧ after.output = world.output ∧ code = 1) ∨
      ∃ (root : Location) (found folders : List Folder) (listing : Listing),
        world.disk.resolve (.ofString target) = .ok root ∧
        discover world.disk (.ofRoot root) config.maxDepth = .ok found ∧
        folders = (if found.isEmpty then [⟨".", root, []⟩] else found) ∧
        after.output = world.output ++ listing.text ∧
        List.Forall₂ (IsListed config world.disk) folders listing.folders ∧ listing.HasSums ∧
        (code = 0 ∨ code = 1) ∧
        (code = 1 ↔ ∃ listed ∈ listing.folders, ∃ item ∈ listed.items, item.isSet = false) := by
  obtain ⟨chosen, early, hchoose, hscans⟩ := succeeds_bind_iff.mp hrun
  obtain ⟨root, hroot, hdisk, houtput, hchosen⟩ := of_succeeds_chooseRoot hchoose
  rcases hchosen with rfl | ⟨rfl, hnowhere⟩
  · obtain ⟨folders, _, hfolders, hreports⟩ := succeeds_bind_iff.mp hscans
    obtain ⟨hfolders, rfl⟩ := succeeds_lookUp_iff.mp hfolders
    obtain ⟨results, late, hattempt, hends⟩ := succeeds_bind_iff.mp hreports
    unfold Succeeds at hattempt
    rw [outcome_attempt, outcome_lookUp, hdisk] at hattempt
    rw [hdisk] at hfolders
    cases hall : folders.mapM (reportOn config world.disk) with
    | error error =>
      rw [hall] at hattempt
      dsimp only at hattempt
      split at hattempt
      · rename_i hreported
        obtain ⟨hresults, rfl⟩ := Prod.mk.inj hattempt
        obtain rfl := Except.ok.inj hresults
        obtain ⟨rfl, rfl⟩ := succeeds_pure_iff.mp hends
        exact .inl ⟨⟨root, hroot, .inr ⟨folders, error, hfolders, hall, hreported⟩⟩, houtput, rfl⟩
      · simp at hattempt
    | ok reports =>
      rw [hall] at hattempt
      obtain ⟨hresults, rfl⟩ := Prod.mk.inj hattempt
      obtain rfl := Except.ok.inj hresults
      obtain ⟨_, _, hwrite, hexit⟩ := succeeds_bind_iff.mp hends
      obtain ⟨rfl, rfl⟩ := succeeds_pure_iff.mp hexit
      obtain rfl := (Prod.mk.inj ((outcome_write _ _).symm.trans hwrite)).2
      obtain ⟨found, hfound, hreported⟩ := reportedFolders_eq_ok_iff.mp hfolders
      refine .inr ⟨root, found, folders, listingOf reports, hroot, hfound, hreported, ?_,
        forall₂_isListed hall, hasSums_listingOf reports, ?_, exit_eq_one_iff reports⟩
      · rw [text_listingOf, ← houtput]
      · split
        · exact .inr rfl
        · exact .inl rfl
  · obtain ⟨rfl, rfl⟩ := succeeds_pure_iff.mp hscans
    exact .inl ⟨⟨root, hroot, .inl hnowhere⟩, houtput, rfl⟩

/-- The report on a project with a variable that is set and one that is blank. -/
theorem scanProject_report_is_consistent_of_settings :
    ∃ (after : World) (listing : Listing),
      Succeeds (scanProject { envFile := some ".env" } "/app" .json)
        (.start (settingsDisk "API_KEY=1\nAPI_URL=\n") []) 1 after ∧
      after.output = "" ++ listing.text ∧
      List.Forall₂ (IsListed { envFile := some ".env" } (settingsDisk "API_KEY=1\nAPI_URL=\n"))
        [⟨".", ["app"], [".env"]⟩] listing.folders ∧ listing.HasSums ∧
      ∃ listed ∈ listing.folders, ∃ item ∈ listed.items, item.isSet = false := by
  have hpath : Pathname.ofString "/app" = .ofRoot ["app"] := by decide
  have hfolder := isFolder_settingsDisk "API_KEY=1\nAPI_URL=\n"
  have hroot := hpath ▸ hfolder.resolve_eq
  have hdiscover := discover_settingsDisk "API_KEY=1\nAPI_URL=\n"
  have hfolders := (@reportedFolders_eq_ok_iff { envFile := some ".env" } _ ["app"] _).mpr
    ⟨_, hdiscover, rfl⟩
  have hscan : scan (settingsDisk "API_KEY=1\nAPI_URL=\n") (.ofRoot ["app"]) false [] 32 =
      .ok ⟨[("API_KEY", [".env"]), ("API_URL", [".env"])]⟩ :=
    (scanSettings_eq_ok_iff hfolder).mpr ⟨by decide, by decide +kernel⟩
  have hreport : reportOn { envFile := some ".env" } (settingsDisk "API_KEY=1\nAPI_URL=\n")
      ⟨".", ["app"], [".env"]⟩ = .ok ⟨".", ".env", false,
        ⟨[("API_KEY", [".env"]), ("API_URL", [".env"])]⟩,
        settingsOf (some (Utf8.encodeText "API_KEY=1\nAPI_URL=\n".toList))⟩ := by
    rw [reportOn_eq]
    refine except_bind_eq_ok_iff.mpr ⟨_, hscan, ?_⟩
    refine except_bind_eq_ok_iff.mpr ⟨".env", rfl, ?_⟩
    exact except_bind_eq_ok_iff.mpr ⟨_, comparedSettings_settingsDisk _, rfl⟩
  have hrun : Succeeds (scanProject { envFile := some ".env" } "/app" .json)
      (.start (settingsDisk "API_KEY=1\nAPI_URL=\n") []) 1 _ :=
    Prod.ext ((exit_of_scanProject .json [] hroot hfolder hfolders hreport).trans (by decide +kernel)) rfl
  rcases scanProject_report_is_consistent hrun with
    ⟨hrefused, -⟩ | ⟨root, found, folders, listing, hresolved, hfound, rfl, houtput, hlisted, hsums, -, hcode⟩
  · exact absurd hrefused (not_isRefused hroot hfolder hfolders hreport)
  · obtain rfl := Except.ok.inj (hroot.symm.trans hresolved)
    obtain rfl := Except.ok.inj (hdiscover.symm.trans hfound)
    exact ⟨_, listing, hrun, houtput, hlisted, hsums, hcode.mp rfl⟩

end EnvFill.Command
