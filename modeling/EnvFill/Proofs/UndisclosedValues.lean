import EnvFill.Proofs.AlikeReports
import EnvFill.Proofs.FoundFolders
import EnvFill.Proofs.SavedAnswers
import EnvFill.Proofs.SettingsScans

/-!
# Reports tell nothing of values

A report says of each variable whether it is set. On disks that differ in values only, and in which the
same keys of the files compared with are blank, the command that reports shows the same and ends alike.
-/

namespace EnvFill.Command

open Procedure Storage Node EnvFile Fill Project Report Text

variable {config : Config} {disk other : Disk} {root : Location} {folder : Folder}

/-- What is asked first is which directory to work in. -/
theorem runAlike_chooseRoot (halike : AlikeDisks disk other) (target : String) :
    RunAlike disk other (fun one two => one = two ∧
      ∀ root ∈ one, disk.resolve (.ofString target) = .ok root) (chooseRoot target)
      (chooseRoot target) := by
  have hroot : Matching (fun one two => followed (disk.resolve (.ofString target)) = .ok one ∧
      followed (other.resolve (.ofString target)) = .ok two ∧ one = two)
      (followed (disk.resolve (.ofString target))) (followed (other.resolve (.ofString target))) := by
    rw [halike.resolve_eq]
    exact (matching_eq_iff.mpr rfl).results
  have hshow : ∀ events, RunAlike disk other (fun one two => one = two ∧
      ∀ root ∈ one, disk.resolve (.ofString target) = .ok root)
      (do display events; return none) (do display events; return none) := by
    intro events
    refine (runAlike_talk _).bind fun _ _ _ => runAlike_pure ⟨rfl, ?_⟩
    exact fun root hnone => absurd hnone.symm (Option.some_ne_none root)
  refine (runAlike_lookUp hroot).bind ?_
  rintro root _ ⟨hresolve, -, rfl⟩
  rw [followed_eq_ok_iff] at hresolve
  refine (runAlike_lookUp (matching_eq_iff.mpr ?_)).bind ?_
  · rw [halike.exists?_eq]
  rintro isThere _ rfl
  cases isThere with
  | false => exact hshow _
  | true =>
    refine (runAlike_lookUp (matching_eq_iff.mpr ?_)).bind ?_
    · rw [halike.isDir_eq]
    rintro isDir _ rfl
    cases isDir with
    | false => exact hshow _
    | true =>
      refine runAlike_pure ⟨rfl, fun found hfound => ?_⟩
      rwa [← Option.some.inj hfound]

theorem runAlike_handOut (format : Format) {reports others : List ScanReport}
    (hsame : List.Forall₂ SameReport reports others) :
    RunAlike disk other Eq (handOut format reports) (handOut format others) := by
  cases format with
  | json =>
    unfold handOut
    rw [documentText_eq hsame]
    exact runAlike_write _
  | screen =>
    unfold handOut
    dsimp only
    rw [List.flatMap_def, List.flatMap_def,
      map_eq_of_forall₂ hsame fun _ _ hreport => hreport.display_eq]
    exact runAlike_talk _

theorem runAlike_scanProject {target : String} (halike : AlikeDisks disk other)
    (hlinks : ∀ root, disk.resolve (.ofString target) = .ok root → HasNoLinks disk root)
    (hblanks : ∀ root folders, disk.resolve (.ofString target) = .ok root →
      reportedFolders config root disk = .ok folders → SameBlanks config disk other folders)
    (format : Format) :
    RunAlike disk other Eq (scanProject config target format) (scanProject config target format) := by
  refine (runAlike_chooseRoot halike target).bind ?_
  rintro chosen _ ⟨rfl, hchosen⟩
  cases chosen with
  | none => exact runAlike_pure rfl
  | some root =>
    have hroot := hchosen root rfl
    refine (runAlike_lookUp (matching_eq_iff.mpr (reportedFolders_eq halike root)).results).bind ?_
    rintro folders _ ⟨hfolders, -, rfl⟩
    have hreports := reports_matching halike (Disk.isName_of_resolve hroot) (hlinks root hroot)
      hfolders (hblanks root folders hroot hfolders)
    refine (runAlike_lookUp hreports).attempt.bind fun one two hrel => ?_
    cases hrel with
    | none => exact runAlike_pure rfl
    | @some reports others hsame =>
      have hmissing : reports.any (fun report => 0 < report.stats.missing) =
          others.any fun report => 0 < report.stats.missing := by
        have hstats := map_eq_of_forall₂ hsame fun _ _ hreport => hreport.stats_eq
        have hany := congrArg (List.any · fun stats => 0 < stats.missing) hstats
        rwa [List.any_map, List.any_map] at hany
      refine (runAlike_handOut format hsame).bind fun _ _ _ => runAlike_pure ?_
      rw [hmissing]

/-- **A report tells nothing of values.** On disks that differ in values only, with the same keys blank
in what the folders are compared with, the command shows and writes the same and ends alike. -/
theorem scanProject_discloses_no_values (config : Config) (target : String) (format : Format)
    (input : List String) (halike : AlikeDisks disk other)
    (hlinks : ∀ root, disk.resolve (.ofString target) = .ok root → HasNoLinks disk root)
    (hblanks : ∀ root folders, disk.resolve (.ofString target) = .ok root →
      reportedFolders config root disk = .ok folders → SameBlanks config disk other folders) :
    let (result, after) := outcome (scanProject config target format) (.start disk input)
    let (result', after') := outcome (scanProject config target format) (.start other input)
    result = result' ∧ after.terminal = after'.terminal ∧ after.output = after'.output := by
  obtain ⟨result, result', after, hmatch, hone, htwo⟩ :=
    runAlike_scanProject halike hlinks hblanks format (.start disk input)
  have hone : outcome (scanProject config target format) (.start disk input) =
    (result, after.on disk) := hone
  have htwo : outcome (scanProject config target format) (.start other input) =
    (result', after.on other) := htwo
  rw [hone, htwo]
  exact ⟨matching_eq_iff.mp hmatch, rfl, rfl⟩

/-! ### Projects with one value -/

theorem sameKeys_of_lines {one two key value other : List UInt8}
    (hone : splitAtEach (· == Byte.lf) one = [key ++ equalsByte :: value, []])
    (htwo : splitAtEach (· == Byte.lf) two = [key ++ equalsByte :: other, []])
    (hkey : equalsByte ∉ key) (hplain : ∀ bytes ∈ [one, two], 0 ∉ bytes ∧ Byte.cr ∉ bytes) :
    SameKeys one two where
  lines := by
    rw [hone, htwo]
    exact .cons (.values hkey value other) (.cons (.refl []) .nil)
  plain_left := hplain one (by simp)
  plain_right := hplain two (by simp)

theorem not_isBlankIn {entries : Entries} {key : String}
    (hvalues : ∀ pair ∈ entries.toList, isAllBlank pair.2.toList = false) :
    ¬IsBlankIn entries key := by
  rintro ⟨value, hget, hblank⟩
  have hfilled := hvalues _ (OrderedMap.mem_of_get? hget)
  exact Bool.false_ne_true (hfilled.symm.trans hblank)

theorem alikeDisks_projectDisk {entries others : List (String × Node)}
    (hsame : AlikeTrees (some "app") (.dir entries) (.dir others))
    (hentries : HasProperNames (.dir entries)) (hothers : HasProperNames (.dir others)) :
    AlikeDisks (projectDisk entries) (projectDisk others) where
  current := rfl
  trees := alikeTrees_cons hsame (AlikeTrees.refl _ _)
  names := hasProperNames_dir (by simp) (by simpa using ⟨by decide, hentries⟩)
  names_other := hasProperNames_dir (by simp) (by simpa using ⟨by decide, hothers⟩)

theorem hasProperNames_settings (bytes : List UInt8) :
    HasProperNames (.dir [(".env", .file bytes)]) :=
  hasProperNames_dir (by simp) (by simpa using ⟨by decide, hasProperNames_file bytes⟩)

/-- Two projects whose settings files give one variable other values. -/
theorem alikeDisks_settingsDisk {one two : String}
    (hsame : SameKeys (Utf8.encodeText one.toList) (Utf8.encodeText two.toList)) :
    AlikeDisks (settingsDisk one) (settingsDisk two) := by
  have hfile : AlikeTrees (some ".env") (.file (Utf8.encodeText one.toList))
      (.file (Utf8.encodeText two.toList)) := alikeTrees_file (.settings rfl (by decide) hsame)
  exact alikeDisks_projectDisk (alikeTrees_cons hfile (AlikeTrees.refl _ _))
    (hasProperNames_settings _) (hasProperNames_settings _)

theorem discover_settingsDisk (text : String) :
    discover (settingsDisk text) (.ofRoot ["app"]) 8 = .ok [⟨".", ["app"], [".env"]⟩] := by
  have hroom : ∀ name ∈ Name.markerFiles, HasRoomFor ["app"] name := by decide
  exact discover_of_isFolder (isFolder_settingsDisk text) hroom (by simp [Node.isDir]) (by decide) rfl

theorem comparedSettings_settingsDisk (text : String) :
    comparedSettings { envFile := some ".env" } (settingsDisk text) ⟨".", ["app"], [".env"]⟩ =
      .ok (settingsOf (some (Utf8.encodeText text.toList))) := by
  have hpath : (Pathname.ofRoot ["app"]).join (.ofString ".env") = .ofRoot (["app"] ++ [".env"]) := by
    decide
  rw [← (readSettings_settingsDisk text).2, ← hpath]
  rfl

theorem sameKeys_of_values : SameKeys (Utf8.encodeText "API_KEY=1\n".toList)
    (Utf8.encodeText "API_KEY=secret\n".toList) := by
  refine @sameKeys_of_lines _ _ (Utf8.encodeText "API_KEY".toList) (Utf8.encodeText "1".toList)
    (Utf8.encodeText "secret".toList) ?_ ?_ ?_ ?_
  · decide +kernel
  · decide +kernel
  · decide +kernel
  · decide +kernel

/-- One value or another, the reports are the same. -/
theorem scanProject_discloses_no_values_of_settings :
    let (result, after) := outcome (scanProject { envFile := some ".env" } "/app" .json)
      (.start (settingsDisk "API_KEY=1\n") [])
    let (result', after') := outcome (scanProject { envFile := some ".env" } "/app" .json)
      (.start (settingsDisk "API_KEY=secret\n") [])
    result = result' ∧ after.terminal = after'.terminal ∧ after.output = after'.output := by
  have hpath : Pathname.ofString "/app" = .ofRoot ["app"] := by decide
  have hroot : ∀ root, (settingsDisk "API_KEY=1\n").resolve (.ofString "/app") = .ok root →
      root = ["app"] := by
    intro root hroot
    rw [hpath, (isFolder_settingsDisk _).resolve_eq] at hroot
    exact (Except.ok.inj hroot).symm
  apply scanProject_discloses_no_values { envFile := some ".env" } "/app" .json []
    (alikeDisks_settingsDisk sameKeys_of_values)
  · exact fun root _ => hasNoLinks_of_linkCount rfl root
  · intro root folders hresolve hfolders folder hfolder one two hone htwo key
    obtain rfl := hroot root hresolve
    have hreported : reportedFolders { envFile := some ".env" } ["app"] (settingsDisk "API_KEY=1\n") =
        .ok [⟨".", ["app"], [".env"]⟩] := by
      unfold reportedFolders
      rw [discover_settingsDisk]
      rfl
    obtain rfl := Except.ok.inj (hreported.symm.trans hfolders)
    obtain rfl := List.mem_singleton.mp hfolder
    obtain rfl := Except.ok.inj ((comparedSettings_settingsDisk _).symm.trans hone)
    obtain rfl := Except.ok.inj ((comparedSettings_settingsDisk _).symm.trans htwo)
    exact iff_of_false (not_isBlankIn (by decide +kernel)) (not_isBlankIn (by decide +kernel))

/-- A project without folders to be found: its one settings file in use lies in a hidden directory. -/
def hiddenSettingsDisk (text : String) : Disk :=
  projectDisk [(".config", .dir [(".env", .file (Utf8.encodeText text.toList))]),
    (".env.local.example", .file (Utf8.encodeText "API_KEY=\n".toList))]

theorem isFolder_hiddenSettingsDisk (text : String) : IsFolder (hiddenSettingsDisk text) ["app"]
    [(".config", .dir [(".env", .file (Utf8.encodeText text.toList))]),
      (".env.local.example", .file (Utf8.encodeText "API_KEY=\n".toList))] :=
  isFolder_projectDisk rfl

theorem isFolder_config_hiddenSettingsDisk (text : String) :
    IsFolder (hiddenSettingsDisk text) ["app", ".config"]
      [(".env", .file (Utf8.encodeText text.toList))] where
  text := by decide
  names := by decide
  short := by decide
  linkFree := isLinkFree_of_linkCount rfl _
  get_eq := rfl
  linkCount_eq := rfl

theorem discover_hiddenSettingsDisk (text : String) :
    discover (hiddenSettingsDisk text) (.ofRoot ["app"]) 8 = .ok [] := by
  have hroom : ∀ name ∈ Name.markerFiles, HasRoomFor ["app"] name := by decide
  refine discover_of_isFolder (isFolder_hiddenSettingsDisk text) hroom ?_ (by decide) rfl
  simp [Node.isDir, isSearched]

theorem scan_hiddenSettingsDisk (text : String) :
    scan (hiddenSettingsDisk text) (.ofRoot ["app"]) false [] 32 =
      .ok ⟨[("API_KEY", [".env.local.example"])]⟩ := by
  refine (scanSettings_eq_ok_iff (isFolder_hiddenSettingsDisk text)).mpr ⟨by decide, ?_⟩
  have hskip : ∀ file ∈ Name.sourceFiles, file ≠ ".config" := by decide
  have hfiles : (Name.sourceFiles.map fun file => (keysNamed
      (([(".config", .dir [(".env", .file (Utf8.encodeText text.toList))]),
        (".env.local.example", .file (Utf8.encodeText "API_KEY=\n".toList))].lookup file).bind
          Node.bytes?)).map fun key => (key, file)) =
      Name.sourceFiles.map fun file => (keysNamed
        (([(".env.local.example", Node.file (Utf8.encodeText "API_KEY=\n".toList))].lookup file).bind
          Node.bytes?)).map fun key => (key, file) := by
    refine List.map_congr_left fun file hfile => ?_
    rw [List.lookup_cons, beq_false_of_ne (hskip file hfile)]
  rw [hfiles]
  decide +kernel

theorem alikeDisks_hiddenSettingsDisk {one two : String}
    (hsame : SameKeys (Utf8.encodeText one.toList) (Utf8.encodeText two.toList)) :
    AlikeDisks (hiddenSettingsDisk one) (hiddenSettingsDisk two) := by
  have hfile : AlikeTrees (some ".env") (.file (Utf8.encodeText one.toList))
      (.file (Utf8.encodeText two.toList)) := alikeTrees_file (.settings rfl (by decide) hsame)
  have hproper : ∀ text : String, HasProperNames
      (.dir [(".config", .dir [(".env", .file (Utf8.encodeText text.toList))]),
        (".env.local.example", .file (Utf8.encodeText "API_KEY=\n".toList))]) := by
    intro text
    refine hasProperNames_dir (by simp) ?_
    simp only [List.forall_mem_cons, List.not_mem_nil, false_implies, implies_true, and_true]
    exact ⟨⟨by decide, hasProperNames_settings _⟩, by decide, hasProperNames_file _⟩
  exact alikeDisks_projectDisk (alikeTrees_cons (alikeTrees_cons hfile (AlikeTrees.refl _ _))
    (AlikeTrees.refl _ _)) (hproper one) (hproper two)

/-- The exit code of a report on one folder. -/
theorem exit_of_scanProject {config : Config} {disk : Disk} {target : String} {root : Location}
    {folder : Folder} {report : ScanReport} {entries : List (String × Node)} (format : Format)
    (input : List String) (hroot : disk.resolve (.ofString target) = .ok root)
    (hfolder : IsFolder disk root entries)
    (hfolders : reportedFolders config root disk = .ok [folder])
    (hreport : reportOn config disk folder = .ok report) :
    (outcome (scanProject config target format) (.start disk input)).1 =
      .ok (if 0 < report.stats.missing then 1 else 0) := by
  have hreports : Succeeds (attempt (lookUp fun disk => [folder].mapM (reportOn config disk)))
      (.start disk input) (some [report]) (.start disk input) := by
    refine succeeds_attempt (succeeds_lookUp_iff.mpr ⟨?_, rfl⟩)
    rw [World.start, List.mapM_cons, hreport]
    rfl
  obtain ⟨after, hhandOut⟩ : ∃ after, Succeeds (handOut format [report]) (.start disk input) () after := by
    cases format with
    | json => exact ⟨_, outcome_write _ _⟩
    | screen => exact ⟨_, outcome_display _ _⟩
  have hrun : Succeeds (scanProject config target format) (.start disk input)
      (if 0 < report.stats.missing then 1 else 0) after := by
    refine succeeds_bind_iff.mpr ⟨some root, _, succeeds_chooseRoot hroot hfolder.isDirectory, ?_⟩
    refine succeeds_bind_iff.mpr ⟨[folder], _, succeeds_lookUp_iff.mpr ⟨hfolders, rfl⟩, ?_⟩
    refine succeeds_bind_iff.mpr ⟨some [report], _, hreports, ?_⟩
    refine succeeds_bind_iff.mpr ⟨(), after, hhandOut, succeeds_pure_iff.mpr ⟨?_, rfl⟩⟩
    simp
  rw [hrun]

theorem readSettings_hiddenSettingsDisk (text : String) :
    readSettings (hiddenSettingsDisk text) ((Pathname.ofRoot ["app"]).join (.ofString ".config/.env")) =
      .ok (settingsOf (some (Utf8.encodeText text.toList))) := by
  have hpath : (Pathname.ofRoot ["app"]).join (.ofString ".config/.env") =
      .ofRoot (["app", ".config"] ++ [".env"]) := by decide
  have hname : IsName ".env" := by decide
  have hbytes := ((isFolder_config_hiddenSettingsDisk text).bytes?_eq_ok_iff hname
    (by decide)).mpr ⟨by decide, by decide, rfl⟩
  rw [hpath]
  exact readSettings_of_bytes hbytes

theorem reportedFolders_hiddenSettingsDisk (config : Config) (hdepth : config.maxDepth = 8)
    (text : String) :
    reportedFolders config ["app"] (hiddenSettingsDisk text) = .ok [⟨".", ["app"], []⟩] := by
  unfold reportedFolders
  rw [hdepth, discover_hiddenSettingsDisk]
  rfl

theorem exit_hiddenSettingsDisk (text : String) :
    (outcome (scanProject { envFile := some ".config/.env" } "/app" .json)
      (.start (hiddenSettingsDisk text) [])).1 =
        .ok (if isSet (settingsOf (some (Utf8.encodeText text.toList))) "API_KEY" then 0 else 1) := by
  have hpath : Pathname.ofString "/app" = .ofRoot ["app"] := by decide
  have hfolder := isFolder_hiddenSettingsDisk text
  have hreport : reportOn { envFile := some ".config/.env" } (hiddenSettingsDisk text)
      ⟨".", ["app"], []⟩ = .ok ⟨".", ".config/.env", false, ⟨[("API_KEY", [".env.local.example"])]⟩,
        settingsOf (some (Utf8.encodeText text.toList))⟩ := by
    rw [reportOn_eq]
    refine except_bind_eq_ok_iff.mpr ⟨_, scan_hiddenSettingsDisk text, ?_⟩
    refine except_bind_eq_ok_iff.mpr ⟨".config/.env", rfl, ?_⟩
    exact except_bind_eq_ok_iff.mpr ⟨_, readSettings_hiddenSettingsDisk text, rfl⟩
  rw [exit_of_scanProject .json [] (hpath ▸ hfolder.resolve_eq) hfolder
    (reportedFolders_hiddenSettingsDisk _ rfl text) hreport]
  refine congrArg Except.ok ?_
  unfold ScanReport.stats reconcile Found.names
  cases hset : isSet (settingsOf (some (Utf8.encodeText text.toList))) "API_KEY" <;> simp [hset]

/-- **What lies outside the folders found is disclosed.** With no folder found, the project itself is
reported on, and whether a value in the file given for it is blank makes a difference. -/
theorem value_beside_found_folders_is_disclosed :
    ¬∀ (config : Config) (target : String) (format : Format) (input : List String) (disk other : Disk),
      AlikeDisks disk other →
      (∀ root, disk.resolve (.ofString target) = .ok root → HasNoLinks disk root) →
      (∀ root folders, disk.resolve (.ofString target) = .ok root →
        discover disk (.ofRoot root) config.maxDepth = .ok folders →
          SameBlanks config disk other folders) →
      (outcome (scanProject config target format) (.start disk input)).1 =
        (outcome (scanProject config target format) (.start other input)).1 := by
  intro hall
  have hsame : SameKeys (Utf8.encodeText "API_KEY=\n".toList) (Utf8.encodeText "API_KEY=x\n".toList) := by
    refine @sameKeys_of_lines _ _ (Utf8.encodeText "API_KEY".toList) [] (Utf8.encodeText "x".toList)
      ?_ ?_ ?_ ?_
    · decide +kernel
    · decide +kernel
    · decide +kernel
    · decide +kernel
  have hpath : Pathname.ofString "/app" = .ofRoot ["app"] := by decide
  have hexits := hall { envFile := some ".config/.env" } "/app" .json [] _ _
    (alikeDisks_hiddenSettingsDisk hsame) (fun root _ => hasNoLinks_of_linkCount rfl root) ?_
  · rw [exit_hiddenSettingsDisk, exit_hiddenSettingsDisk] at hexits
    revert hexits
    decide +kernel
  · intro root folders hroot hfolders folder hfolder
    rw [hpath, (isFolder_hiddenSettingsDisk _).resolve_eq] at hroot
    obtain rfl := Except.ok.inj hroot
    obtain rfl := Except.ok.inj ((discover_hiddenSettingsDisk _).symm.trans hfolders)
    exact absurd hfolder List.not_mem_nil

end EnvFill.Command
