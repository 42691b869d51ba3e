import EnvFill.Proofs.Fillings

/-!
# A run clears the scan

When every variable of a folder that had no value was given one, the same scan finds no other
variables and each of them has a value.
-/

namespace EnvFill.EnvFile

open Text

variable {entries : Entries}

theorem cr_not_mem_setEntries (hkeys : HasWritableKeys entries) (hvalues : HasFileValues entries)
    (content : Option (List UInt8)) : Byte.cr ∉ setEntries entries content := by
  rw [setEntries_eq]
  exact cr_not_mem_joinByteLines
    (isFileLine_of_mem_editedLines hkeys hvalues fun _ => isFileLine_of_mem_linesOf)

end EnvFill.EnvFile

namespace EnvFill.Command

open Procedure Storage EnvFile Fill Project Screen Text

variable {config : Config} {task : FolderTask} {file name : String} {path : Pathname}
  {place target folder : Location} {entries : List (String × Node)}
  {found : Found} {existing : Entries} {before after : World} {answers : List Response}
  {saved : Nat} {disk later : Disk} {content template : Option (List UInt8)}

/-! ### The target -/

/-- What the values that were given leave in the file. -/
theorem exists_put_of_batches {names : List String} {batches : List Entries} {counts : List Nat}
    (htarget : IsTarget disk path place content) (hplain : HavePlainKeys (linesOf content))
    (hnames : ∀ name ∈ names, IsWritableKey name)
    (hbatches : ∀ batch ∈ batches, FillsOne names batch) (hne : batches ≠ [])
    (hrun : Succeeds (batches.mapM (writeSettings path)) disk counts later) :
    ∃ bytes, later = disk.put place (.file bytes) ∧ IsWritable place disk ∧
      HasPairedReturns bytes ∧
        settingsOf (some bytes) = batches.foldl OrderedMap.merge (settingsOf content) := by
  have hreadBack : ∀ batch ∈ batches, IsReadBack batch :=
    fun batch hbatch => isReadBack_of_fillsOne hnames (hbatches batch hbatch)
  obtain ⟨-, -, hput⟩ := htarget.writeAll_eq hrun
  obtain ⟨bytes, hbytes, rfl⟩ := hput hne
  refine ⟨bytes, rfl, ?_, ?_, ?_⟩
  · obtain ⟨first, rest, rfl⟩ := List.exists_cons_of_ne_nil hne
    obtain ⟨_, _, _, hwrite, -, -⟩ := succeeds_mapM_cons_iff.mp hrun
    exact (htarget.writeSettings_eq hwrite).1
  · obtain ⟨front, last, rfl⟩ := (List.eq_nil_or_concat' batches).resolve_left hne
    have hlast := hreadBack last (by simp)
    rw [contentAfter, List.foldl_append, List.foldl_cons, List.foldl_nil] at hbytes
    rw [← Option.some.inj hbytes]
    exact hasPairedReturns_of_cr_not_mem (cr_not_mem_setEntries hlast.keys hlast.values _)
  · rw [← hbytes]
    exact settingsOf_contentAfter hreadBack hplain

theorem path_of_writable (task : FolderTask) (hfile : file ∈ Name.writableFiles) :
    task.path file = .ofRoot (task.folder ++ [file]) ∧ IsName file ∧ '\x00' ∉ file.toList ∧
      file ≠ manifestFile ∧ file ≠ ".env.example" := by
  have hall : ∀ file ∈ Name.writableFiles, Pathname.ofString file = ⟨.current, [file]⟩ ∧
      (file ≠ "" ∧ file ≠ "." ∧ file ≠ "..") ∧ file.toList.contains '\x00' = false ∧
        file ≠ manifestFile ∧ file ≠ ".env.example" := by decide
  obtain ⟨hpath, hname, hzero, hmanifest, hexample⟩ := hall file hfile
  refine ⟨?_, hname, by simpa using hzero, hmanifest, hexample⟩
  unfold FolderTask.path
  rw [hpath]
  rfl

theorem path_of_example : task.path ".env.example" = .ofRoot (task.folder ++ [".env.example"]) := by
  have hpath : Pathname.ofString ".env.example" = ⟨.current, [".env.example"]⟩ := by decide
  unfold FolderTask.path
  rw [hpath]
  rfl

/-- Settings that are read from a file of a folder are those of its content. -/
theorem eq_of_readSettings (hfolder : IsFolder disk folder entries) (hname : IsName name)
    (hzero : '\x00' ∉ name.toList) (hcontent : entries.lookup name = content.map .file)
    (hread : readSettings disk (.ofRoot (folder ++ [name])) = .ok existing) :
    existing = settingsOf content := by
  obtain ⟨read, hbytes, -⟩ := except_bind_eq_ok_iff.mp hread
  have hbytes := followed_eq_ok_iff.mp hbytes
  obtain ⟨-, -, hlookup⟩ := (hfolder.bytes?_eq_ok_iff hname (hasZero_child hfolder hzero)).mp hbytes
  have hread' := readSettings_of_bytes hbytes
  have hsame : read = content := by
    rw [hlookup, hcontent]
    cases content <;> rfl
  rw [hread, hsame] at hread'
  exact Except.ok.inj hread'

/-! ### The template -/

section Template

variable {keys : List String} {deep : Bool} {extraIgnore : List String} {maxDepth : Int}

/-- Whether or not the template gets the keys, the scan finds nothing new but them. -/
theorem exists_scan_of_sync (hfolder : IsFolder disk folder entries)
    (htemplate : entries.lookup ".env.example" = template.map .file) (htext : IsText template)
    (hkeys : ∀ key ∈ keys, Name.IsVariableName key.toList)
    (hscan : scan disk (.ofRoot folder) deep extraIgnore maxDepth = .ok found)
    (hsync : later = disk ∨ ∃ place count,
      disk.resolve (.ofRoot (folder ++ [".env.example"])) = .ok place ∧
        Succeeds (syncTemplate (.ofRoot place) keys) disk count later) :
    ∃ entries' found', IsFolder later folder entries' ∧
      (∀ name ≠ ".env.example", entries'.lookup name = entries.lookup name) ∧
        scan later (.ofRoot folder) deep extraIgnore maxDepth = .ok found' ∧
          ∀ key ∈ found'.names, key ∈ found.names ∨ key ∈ keys := by
  have hname : IsName ".env.example" := ⟨by decide, by decide, by decide⟩
  have hzero : '\x00' ∉ ".env.example".toList := by decide
  have htarget := isTarget_of_isFolder hfolder hname hzero htemplate
  have hsame : later = disk → ∃ entries' found', IsFolder later folder entries' ∧
      (∀ name ≠ ".env.example", entries'.lookup name = entries.lookup name) ∧
        scan later (.ofRoot folder) deep extraIgnore maxDepth = .ok found' ∧
          ∀ key ∈ found'.names, key ∈ found.names ∨ key ∈ keys := by
    rintro rfl
    exact ⟨entries, found, hfolder, fun _ _ => rfl, hscan, fun _ hkey => .inl hkey⟩
  rcases hsync with hsync | ⟨place, count, hplace, hsync⟩
  · exact hsame hsync
  obtain rfl := Disk.eq_of_resolve_ofRoot htarget.isName htarget.linkFree hplace
  rcases htarget.syncTemplate_eq hsync with hafter | ⟨hne, -, rfl⟩
  · exact hsame hafter
  obtain ⟨found', hscan', hfound'⟩ := exists_scan_put hfolder htemplate (by decide)
    (namesOnly_addKeys htext hne hkeys) hscan
  exact ⟨_, found', hfolder.put htemplate, fun other hother => lookup_putPair_of_ne hother, hscan',
    hfound'⟩

end Template

theorem reconcile_missing_eq_zero (hset : ∀ name ∈ found.names, isSet existing name = true) :
    (reconcile found existing).missing = 0 := by
  have hall : found.names.filter (isSet existing) = found.names := List.filter_eq_self.mpr hset
  simp only [reconcile, hall, Int.sub_self]

/-- **A run clears the scan.** If every question is answered with a value and no write fails, the same
scan afterwards finds only variables that it found before, and none of them is missing in the file
that was written. -/
theorem scan_cleared_of_fillsMissing (hnames : ∀ name ∈ task.folder, IsName name)
    (hlinks : HasNoLinks before.disk task.folder) (hfile : file ∈ Name.writableFiles)
    (hexample : config.exampleFile = ".env.example")
    (hcontent : before.disk.top.get? (task.folder ++ [file]) = content.map .file)
    (htext : IsText content) (hplain : HavePlainKeys (linesOf content))
    (htemplate : before.disk.top.get? (task.folder ++ [".env.example"]) = template.map .file)
    (htemplateText : IsText template)
    (hrun : FillsMissing config task file before answers saved after)
    (hanswers : ∀ answer ∈ answers, IsValue answer) :
    Succeeds (fillFolder config task) before saved after ∧
      ∃ first second settings,
        scan before.disk (.ofRoot task.folder) config.deep config.extraIgnore config.scanMaxDepth =
            .ok first ∧
          scan after.disk (.ofRoot task.folder) config.deep config.extraIgnore
              config.scanMaxDepth = .ok second ∧
            readSettings after.disk (task.path file) = .ok settings ∧
              (reconcile second settings).missing = 0 ∧ ∀ name ∈ second.names, name ∈ first.names := by
  refine ⟨hrun.succeeds, ?_⟩
  obtain @⟨found, existing, target, last, announced, working, aimed, shown, chosen, started, answered,
    hannounce, hworking, hscan, -, hchosen, htarget, hexisting, hresult, hmode, hstart, hasked,
    hwritten, hfinish⟩ := hrun
  obtain ⟨hpath, hname, hzero, hmanifest, hother⟩ := path_of_writable task hfile
  -- Up to the first question, only the screen changes.
  have hworkingDisk : working.disk = before.disk :=
    (disk_of_talk hworking).1.trans ((leavesDisk_announce _).of_succeeds hannounce)
  have haimed : aimed.disk = before.disk := ((leavesDisk_chooseTarget _ _).of_succeeds hchosen).trans hworkingDisk
  have hstarted : started.disk = before.disk :=
    (disk_of_talk hstart).1.trans ((disk_of_talk hmode).1.trans ((disk_of_talk hresult).1.trans haimed))
  have htally : started.tally = .start := (disk_of_talk hstart).2.trans (disk_of_talk hmode).2
  rw [hworkingDisk] at hscan
  obtain ⟨entries, hfolder⟩ := exists_isFolder_of_scan hnames hlinks hscan
  rw [hfolder.get?_eq] at hcontent htemplate
  have hplace := isTarget_of_isFolder hfolder hname hzero hcontent
  rw [haimed, hpath] at htarget
  obtain rfl := Disk.eq_of_resolve_ofRoot hplace.isName hplace.linkFree htarget
  rw [haimed] at hexisting
  obtain rfl := eq_of_readSettings hfolder hname hzero hcontent hexisting
  -- The questions: each variable without a value gets one.
  have hvariable : ∀ name ∈ found.names, Name.IsVariableName name.toList :=
    fun name hname => isVariableName_of_mem_scan hfolder hscan hname
  have hasks : ∀ name ∈ missing found (settingsOf content), name ∈ found.names :=
    fun name hname => (List.mem_filter.mp hname).1
  obtain ⟨batches, counts, hsaves, hbatches, hall, hkeys⟩ := fillsAll_of_asks hasked hanswers
  have hne : batches ≠ [] := by
    rintro rfl
    obtain ⟨name, hname⟩ := List.exists_mem_of_ne_nil _ (missing_ne_nil_of_chooseMode hmode)
    obtain ⟨batch, hbatch, -⟩ := hall name hname
    exact absurd hbatch List.not_mem_nil
  rw [hstarted] at hsaves
  obtain ⟨bytes, hanswered, hwritable, hpaired, hsettings⟩ := exists_put_of_batches hplace hplain
    (fun name hname => (hvariable name (hasks name hname)).isWritableKey) hbatches hne hsaves
  have honly : NamesOnly file content bytes found.names := by
    refine namesOnly_of_settings hfile htext hpaired fun key hkey => ?_
    rw [hsettings] at hkey
    exact (mem_keys_foldl_merge hbatches hkey).imp_right (hasks key)
  obtain ⟨found', hscan', hfound'⟩ := exists_scan_put hfolder hcontent hmanifest honly hscan
  -- The template: it can only get keys that were saved.
  have hsaved : ∀ key ∈ answered.tally.keys, key ∈ found.names := by
    intro key hkey
    rcases hkeys key hkey with hstart | hname
    · rw [htally] at hstart
      exact absurd hstart List.not_mem_nil
    · exact hasks key hname
  have hsync := disk_of_finish hwritten hfinish
  rw [hexample, path_of_example, hanswered] at hsync
  have htemplate' : (putPair file (.file bytes) entries).lookup ".env.example" =
      template.map .file := (lookup_putPair_of_ne (Ne.symm hother)).trans htemplate
  obtain ⟨entries', second, hfolder', hlookup, hsecond, hnew⟩ := exists_scan_of_sync
    (hfolder.put hcontent) htemplate' htemplateText (fun key hkey => hvariable key (hsaved key hkey))
    hscan' hsync
  have hfound : ∀ name ∈ second.names, name ∈ found.names := by
    intro name hname
    rcases hnew name hname with hold | hkey
    · exact (hfound' name hold).elim id id
    · exact hsaved name hkey
  -- What is read back has a value for each of them.
  have hread : readSettings after.disk (task.path file) =
      .ok (batches.foldl OrderedMap.merge (settingsOf content)) := by
    rw [hpath, ← hsettings]
    refine readSettings_of_bytes ((hfolder'.bytes?_eq_ok_iff hname (hasZero_child hfolder' hzero)).mpr
      ⟨hwritable.text, hwritable.short file (by simp), ?_⟩)
    rw [hlookup file hother, lookup_putPair_self]
    rfl
  refine ⟨found, second, _, hscan, hsecond, hread, reconcile_missing_eq_zero fun name hname => ?_,
    hfound⟩
  refine isSet_foldl_merge hbatches ?_
  by_cases hset : isSet (settingsOf content) name = true
  · exact .inl hset
  · exact .inr (hall name (List.mem_filter.mpr ⟨hfound name hname, by simpa using hset⟩))

/-! ### A small project -/

/-- A project with an empty template and a file that names a variable without giving it a value. -/
def sampleProject : Disk :=
  ⟨.dir [("app", .dir [(".env.example", .file []),
    (".env.local", .file (Utf8.encodeText "API_KEY=\n".toList))])], []⟩

theorem isFolder_sampleProject : IsFolder sampleProject ["app"]
    [(".env.example", .file []), (".env.local", .file (Utf8.encodeText "API_KEY=\n".toList))] :=
  isFolder_projectDisk rfl

def sampleFound : Found := ⟨[("API_KEY", [".env.local"])]⟩

theorem scan_sampleProject : scan sampleProject (.ofRoot ["app"]) false [] 32 = .ok sampleFound := by
  have hkey : keysNamed (some (Utf8.encodeText "API_KEY=\n".toList)) = ["API_KEY"] :=
    (keysNamed_encodeText _).trans (by decide)
  have hempty : keysNamed (some []) = [] := (keysNamed_encodeText []).trans (by decide)
  refine scanSettings_eq_of_only isFolder_sampleProject (by decide) (by decide) hkey fun other _ hne => ?_
  by_cases htemplate : other = ".env.example"
  · rw [htemplate]
    exact hempty
  · rw [List.lookup_cons, beq_false_of_ne htemplate, List.lookup_cons, beq_false_of_ne hne]
    rfl

def sampleTarget : List UInt8 := setEntries (OrderedMap.ofList [("API_KEY", "secret")]) none

theorem templateIsWritten_of_isFolder (project target : Location) (hfolder : IsFolder before.disk folder entries)
    (hroom : HasRoomFor folder ".env.example") (htemplate : entries.lookup ".env.example" = template.map .file) :
    TemplateIsWritten { envFile := some ".env" } ⟨folder, none, project⟩ target before := by
  intro place hresolve _ _ _
  rw [path_of_example] at hresolve
  obtain rfl := Disk.eq_of_resolve_ofRoot (hfolder.names_child hroom.isName)
    (hfolder.linkFree_child ".env.example") hresolve
  exact exists_succeeds_syncTemplate_of_isFolder hfolder hroom htemplate before.tally.keys

/-- In a folder with one variable, and without the file that is to be written, the variable is asked for, and the
one answer is written and its key added to the template. -/
theorem exists_fillsMissing_of_isFolder {project : Location} (hfolder : IsFolder disk folder entries)
    (hroom : ∀ name ∈ [".env", ".env.example"], HasRoomFor folder name)
    (hscan : scan disk (.ofRoot folder) false [] 32 = .ok sampleFound)
    (hnew : entries.lookup ".env" = (none : Option (List UInt8)).map .file)
    (htemplate : entries.lookup ".env.example" = template.map .file)
    (hignored : isIgnored? (disk.put (folder ++ [".env"]) (.file sampleTarget)) (.ofRoot project)
      (.ofRoot (folder ++ [".env"])) = .ok none) :
    ∃ after, FillsMissing { envFile := some ".env" } ⟨folder, none, project⟩ ".env"
      (.start disk ["", "secret"]) [.value "secret"] 1 after := by
  have henv : HasRoomFor folder ".env" := hroom _ (by decide)
  have hexample : HasRoomFor folder ".env.example" := hroom _ (by decide)
  have hplace : disk.resolve (.ofRoot (folder ++ [".env"])) = .ok (folder ++ [".env"]) :=
    Disk.resolve_ofRoot (hfolder.names_child henv.isName) (hfolder.linkFree_child ".env")
      (Disk.hasZero_of_checkText henv.text)
  have hexisting : readSettings disk (.ofRoot (folder ++ [".env"])) = .ok ∅ := by
    have hfind := hfolder.find_eq henv
    rw [hnew] at hfind
    exact readSettings_of_bytes (congrArg (Except.map _) hfind)
  have hmode : Mode.ofLine? (reconcile sampleFound ∅) "" = some (.fill .missing) := by decide
  obtain ⟨planned, hplan, hdisk, htally, hinput⟩ : ∃ planned,
      Succeeds (plan { envFile := some ".env" } ⟨folder, none, project⟩) (.start disk ["", "secret"])
          (some ⟨".env", folder ++ [".env"], sampleFound, ∅, some ["API_KEY"]⟩) planned ∧
        planned.disk = disk ∧ planned.tally = .start ∧ planned.terminal.input = ["secret"] :=
    exists_succeeds_plan rfl hscan rfl rfl hplace hexisting rfl hmode rfl (by decide)
  obtain ⟨started, hstarted, hsame, hkept, hrest⟩ :=
    exists_succeeds_talk (exists_succeeds_startSession planned.terminal)
  have hname : ["API_KEY"][(Session.start ∅).index]? = some "API_KEY" := rfl
  obtain ⟨answered, hanswered, hsaved, hafter, hcounted, -⟩ :=
    exists_answers_value sampleFound (.start ∅) ((hsame.trans hdisk) ▸ hfolder) henv hnew hname
      (hrest.trans hinput) (by decide) (by decide) (by decide) (by decide)
  rw [hsame, hdisk] at hsaved
  have htemplate' : (putPair ".env" (.file sampleTarget) entries).lookup ".env.example" = template.map .file :=
    (lookup_putPair_of_ne (by decide)).trans htemplate
  have hwritten := templateIsWritten_of_isFolder project (folder ++ [".env"]) hafter hexample htemplate'
  have hresolve : answered.disk.resolve (FolderTask.path ⟨folder, none, project⟩ ".env.example") =
      .ok (folder ++ [".env.example"]) := by
    rw [path_of_example]
    exact Disk.resolve_ofRoot (hafter.names_child hexample.isName) (hafter.linkFree_child _)
      (Disk.hasZero_of_checkText hexample.text)
  have hcount : answered.tally.saved = 1 := by
    rw [hcounted, hkept, htally]
    rfl
  obtain ⟨after, hfinish⟩ : ∃ after, Succeeds (finish { envFile := some ".env" } ⟨folder, none, project⟩
      (folder ++ [".env"]) ".env") answered answered.tally.saved after :=
    exists_succeeds_finish (hsaved ▸ hignored) hresolve hwritten
  rw [hcount] at hfinish
  exact ⟨after, .of_plan hplan rfl hstarted (.final hanswered rfl) hwritten hfinish⟩

theorem isFolder_sampleProjectAfter :
    IsFolder (sampleProject.put (["app"] ++ [".env"]) (.file sampleTarget)) ["app"]
      (putPair ".env" (.file sampleTarget)
        [(".env.example", .file []), (".env.local", .file (Utf8.encodeText "API_KEY=\n".toList))]) := by
  have hnew : [(".env.example", Node.file []),
      (".env.local", .file (Utf8.encodeText "API_KEY=\n".toList))].lookup ".env" =
        (none : Option (List UInt8)).map .file := rfl
  exact isFolder_sampleProject.put hnew

theorem exists_fillsMissing_sampleProject :
    ∃ after, FillsMissing { envFile := some ".env" } ⟨["app"], none, ["app"]⟩ ".env"
      (.start sampleProject ["", "secret"]) [.value "secret"] 1 after := by
  have htemplate : [(".env.example", Node.file []),
      (".env.local", .file (Utf8.encodeText "API_KEY=\n".toList))].lookup ".env.example" =
        (some ([] : List UInt8)).map .file := rfl
  have hignored := isIgnored?_of_none isFolder_sampleProjectAfter (by decide) rfl (.ofRoot ["app", ".env"])
  exact exists_fillsMissing_of_isFolder isFolder_sampleProject (by decide) scan_sampleProject rfl htemplate hignored

/-- One variable, one answer. -/
theorem scan_cleared_of_one_answer :
    ∃ saved after,
      Succeeds (fillFolder { envFile := some ".env" } ⟨["app"], none, ["app"]⟩)
          (.start sampleProject ["", "secret"]) saved after ∧
        ∃ first second settings,
          scan sampleProject (.ofRoot ["app"]) false [] 32 = .ok first ∧
            scan after.disk (.ofRoot ["app"]) false [] 32 = .ok second ∧
              readSettings after.disk (FolderTask.path ⟨["app"], none, ["app"]⟩ ".env") =
                  .ok settings ∧
                (reconcile second settings).missing = 0 ∧
                  ∀ name ∈ second.names, name ∈ first.names := by
  obtain ⟨after, hrun⟩ := exists_fillsMissing_sampleProject
  have htarget : sampleProject.top.get? ["app", ".env"] = (none : Option (List UInt8)).map .file := rfl
  have htemplate : sampleProject.top.get? ["app", ".env.example"] =
      (some ([] : List UInt8)).map .file := rfl
  have hanswers : ∀ answer ∈ [Response.value "secret"], IsValue answer := by
    intro answer hanswer
    rw [List.mem_singleton.mp hanswer]
    exact ⟨"secret", rfl, by decide, by decide⟩
  exact ⟨1, after, scan_cleared_of_fillsMissing (by decide) (hasNoLinks_of_linkCount rfl _)
    (by decide) rfl htarget (by rintro _ ⟨⟩) (by decide) htemplate
    (by rintro _ ⟨⟩; exact ⟨by decide, hasPairedReturns_of_cr_not_mem (by decide)⟩) hrun hanswers⟩

end EnvFill.Command
