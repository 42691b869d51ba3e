import EnvFill.Proofs.ChangedFolders
import EnvFill.Proofs.FoundFolders

/-!
# The files that a run changes

Of the files on a disk, a run changes those that it was told to write, and the templates beside them, each
only after a value was saved. What else there is after a run are directories that lead to such a file, or to
one that could not be saved.
-/

namespace EnvFill.Command

open Procedure Storage Node EnvFile Fill Project Screen Text

/-- What has changed from `disk` to `after` is what the fillings say: their files, and directories that
lead there. -/
def AccountFor (config : Config) (fillings : List Filling) (disk after : Disk) : Prop :=
  ChangesOnly (fun place => ∃ filling ∈ fillings, filling.Writes config disk place)
    (fun place => ∃ filling ∈ fillings, filling.Makes config disk place) disk after

section Run

variable {config : Config} {disk middle after : Disk} {one two : List Filling} {world : World}
  {filling : Filling}

theorem AccountFor.append_right (haccount : AccountFor config one disk after) (two : List Filling) :
    AccountFor config (one ++ two) disk after := by
  refine ChangesOnly.mono haccount ?_ ?_
  · rintro place ⟨filling, hfilling, hplace⟩
    exact ⟨filling, List.mem_append_left two hfilling, hplace⟩
  · rintro place - ⟨filling, hfilling, hplace⟩
    exact ⟨filling, List.mem_append_left two hfilling, hplace⟩

/-- Since the links stay, the fillings of later folders say the same of the first disk. -/
theorem AccountFor.trans (hcycles : HasNoLinkCycles disk.top) (hfirst : AccountFor config one disk middle)
    (hsecond : AccountFor config two middle after) : AccountFor config (one ++ two) disk after := by
  refine ChangesOnly.trans (hfirst.append_right two) (ChangesOnly.mono hsecond ?_ ?_)
  · rintro place ⟨filling, hfilling, hplace⟩
    exact ⟨filling, List.mem_append_right one hfilling,
      (Filling.writes_congr hcycles hfirst.links).mp hplace⟩
  · rintro place - ⟨filling, hfilling, hplace⟩
    exact ⟨filling, List.mem_append_right one hfilling,
      (Filling.makes_congr hcycles hfirst.links).mp hplace⟩

/-- Several folders, one after another, up to the first that ends the run. -/
theorem accountFor_fillTasks (config : Config) (tasks : List FolderTask)
    (hcycles : HasNoLinkCycles world.disk.top) :
    AccountFor config (fillingsOf config tasks world) world.disk
      (outcome (fillTasks config tasks) world).2.disk := by
  induction tasks generalizing world with
  | nil => exact .refl _ _ _
  | cons task rest ih =>
    have hfirst : AccountFor config (fillingsIn config task world) world.disk
        (outcome (fillFolder config task) world).2.disk := changesOnly_fillFolder config task hcycles
    rw [fillTasks, fillingsOf, outcome_bind]
    rcases houtcome : outcome (fillFolder config task) world with ⟨result, filled⟩
    rw [houtcome] at hfirst
    cases result with
    | error error => exact hfirst.append_right _
    | ok saved =>
      dsimp only
      rw [disk_bind_of_leavesDisk fun _ => leavesDisk_pure _]
      exact hfirst.trans hcycles (ih (hcycles.congr hfirst.links))

/-- Since the links stay, the place of a file is the one that it has on the first disk. -/
theorem of_mem_fillingsOf {tasks : List FolderTask} (hcycles : HasNoLinkCycles world.disk.top)
    (hfilling : filling ∈ fillingsOf config tasks world) :
    world.disk.resolve (filling.task.path filling.file) = .ok filling.target ∧ filling.IsAsked := by
  induction tasks generalizing world with
  | nil => exact absurd hfilling List.not_mem_nil
  | cons task rest ih =>
    have hfirst := changesOnly_fillFolder config task hcycles
    rw [fillingsOf] at hfilling
    rcases List.mem_append.mp hfilling with hfilling | hfilling
    · exact ⟨resolve_of_mem_fillingsIn hfilling, isAsked_of_mem_fillingsIn hfilling⟩
    · rcases houtcome : outcome (fillFolder config task) world with ⟨result, filled⟩
      rw [houtcome] at hfirst hfilling
      cases result with
      | error error => exact absurd hfilling List.not_mem_nil
      | ok saved =>
        rw [← Disk.resolve_congr hcycles (isAbsolute_path _ _) hfirst.links]
        exact ih (hcycles.congr hfirst.links) hfilling

/-- **A run changes its files and nothing else**, however it ends. Its files are, for the folders in which
something was saved, the one that was chosen and the template. What else there is afterwards are new
directories above these and above a file that could not be saved. -/
theorem run_changes_only_its_files (config : Config) (target : String) (disk : Disk)
    (input : List String) (hcycles : HasNoLinkCycles disk.top) :
    (∀ filling ∈ fillings config target (.start disk input),
      disk.resolve (filling.task.path filling.file) = .ok filling.target ∧ filling.IsAsked) ∧
    AccountFor config (fillings config target (.start disk input)) disk
      (outcome (run config target) (.start disk input)).2.disk ∧
    ((∀ filling ∈ fillings config target (.start disk input), filling.saved = []) →
      ChangesOnly (fun _ => False)
        (fun place => ∃ filling ∈ fillings config target (.start disk input),
          IsFailure filling.ending ∧ IsAbove place filling.target)
        disk (outcome (run config target) (.start disk input)).2.disk) := by
  have hstart := leavesDisk_chooseTasks config target (.start disk input)
  rw [disk_run, outcome_bind]
  unfold fillings
  rcases houtcome : outcome (chooseTasks config target) (.start disk input) with ⟨result, chosen⟩
  rw [houtcome] at hstart
  obtain rfl : disk = chosen.disk := hstart.symm
  cases result with
  | error error => exact ⟨by simp, .refl _ _ _, fun _ => .refl _ _ _⟩
  | ok tasks =>
    have haccount := accountFor_fillTasks config tasks hcycles
    refine ⟨fun filling hfilling => of_mem_fillingsOf hcycles hfilling, haccount, fun hnone => ?_⟩
    refine ChangesOnly.mono haccount ?_ ?_
    · rintro place ⟨filling, hfilling, hsaved, -⟩
      exact hsaved (hnone filling hfilling)
    · rintro place - ⟨filling, hfilling, file, habove, ⟨hsaved, -⟩ | ⟨rfl, hfailed⟩⟩
      · exact absurd (hnone filling hfilling) hsaved
      · exact ⟨filling, hfilling, hfailed, habove⟩

/-! ### A run in one folder -/

variable {target : String} {task : FolderTask} {plan : Plan} {chosen planned : World}

theorem fillings_of_plan (hchosen : Succeeds (chooseTasks config target) world [task] chosen)
    (hplanned : Succeeds (Command.plan config task) chosen (some plan) planned) :
    fillings config target world = [.of task plan planned] := by
  unfold fillings
  rw [hchosen]
  dsimp only [fillingsOf]
  rw [fillingsIn, hplanned]
  dsimp only
  split <;> rfl

/-- What the run does to the disk, it does once it has planned for the folder. -/
theorem disk_run_of_plan (hchosen : Succeeds (chooseTasks config target) world [task] chosen)
    (hplanned : Succeeds (Command.plan config task) chosen (some plan) planned) :
    (outcome (run config target) world).2.disk = (outcome (plan.fill config task) planned).2.disk := by
  rw [disk_run, outcome_bind, hchosen]
  dsimp only
  rw [disk_fillTasks_singleton, fillFolder_eq, outcome_bind, hplanned]
  rfl

end Run

/-! ### A project with a link -/

def unsetFile : List UInt8 := Utf8.encodeText "API_KEY=\n".toList

theorem keysNamed_unsetFile : keysNamed (some unsetFile) = ["API_KEY"] :=
  (keysNamed_encodeText _).trans (by decide)

theorem settingsOf_unsetFile : settingsOf (some unsetFile) = OrderedMap.ofList [("API_KEY", "")] :=
  OrderedMap.ext (by decide +kernel)

/-- A project whose settings file is a link to one in another directory. -/
def linkedProject : Disk :=
  projectDisk [(".env", .link "config/.env"), ("config", .dir [(".env", .file unsetFile)])]

theorem eq_of_get?_linkedProject {here : Location} {target : String}
    (hlink : linkedProject.top.get? here = some (.link target)) :
    here = ["app", ".env"] ∧ target = "config/.env" := by
  rcases here with _ | ⟨project, here⟩
  · cases hlink
  obtain ⟨_, hproject, hlink⟩ := exists_mem_of_get?_cons hlink
  obtain ⟨rfl, rfl⟩ := Prod.mk.inj (List.mem_singleton.mp hproject)
  rcases here with _ | ⟨first, here⟩
  · cases hlink
  obtain ⟨_, hfirst, hlink⟩ := exists_mem_of_get?_cons hlink
  simp only [List.mem_cons, List.not_mem_nil, or_false, Prod.mk.injEq] at hfirst
  rcases hfirst with ⟨rfl, rfl⟩ | ⟨rfl, rfl⟩
  · rcases here with _ | ⟨second, here⟩
    · exact ⟨rfl, (Node.link.inj (Option.some.inj hlink)).symm⟩
    · cases hlink
  · rcases here with _ | ⟨second, here⟩
    · cases hlink
    obtain ⟨_, hsecond, hlink⟩ := exists_mem_of_get?_cons hlink
    obtain ⟨-, rfl⟩ := Prod.mk.inj (List.mem_singleton.mp hsecond)
    cases here <;> cases hlink

theorem follows_linkedProject : Follows linkedProject.top ["app"] (components "config/.env")
    ["app", "config", ".env"] 2 := by
  have hparts : components "config/.env" = ["config", ".env"] := by decide
  rw [hparts]
  exact .down (by decide) (by rintro _ ⟨⟩) (.down (by decide) (by rintro _ ⟨⟩) .done)

theorem hasNoLinkCycles_linkedProject : HasNoLinkCycles linkedProject.top := by
  intro here target hlink
  obtain ⟨rfl, rfl⟩ := eq_of_get?_linkedProject hlink
  exact ⟨by decide, _, _, "config/.env", rfl, follows_linkedProject⟩

theorem isFolder_linkedProject :
    IsFolder linkedProject ["app", "config"] [(".env", .file unsetFile)] where
  text := by decide
  names := by decide
  short := by decide
  linkFree := by
    intro front hfront target hlink
    obtain ⟨rfl, -⟩ := eq_of_get?_linkedProject hlink
    exact absurd hfront (by decide)
  get_eq := rfl
  linkCount_eq := rfl

def linkedContent (name : String) : Option (List UInt8) := if name = ".env" then some unsetFile else none

theorem bytes?_linkedProject {name : String} (hroom : HasRoomFor ["app"] name) (hname : name ≠ "config") :
    linkedProject.bytes? (.ofRoot (["app"] ++ [name])) = .ok (linkedContent name) := by
  unfold linkedContent
  split
  · rename_i heq
    subst heq
    have hplace : locateFrom? linkedProject.top maxLinks [] ["app", ".env"] = .ok ["app", "config", ".env"] := by
      have hshort : isTooLong "app" = false ∧ isTooLong ".env" = false ∧ isTooLong "config" = false := by decide
      have hsteps : linkSteps "config/.env" = ["config", ".env"] := by decide
      have hstart : linkStart ["app"] "config/.env" = ["app"] := by decide
      simp [locateFrom?, maxLinks, hshort, hsteps, hstart, linkedProject, projectDisk, Node.get?, Node.entries,
        List.lookup]
    have hlocate : linkedProject.locate? (.ofRoot (["app"] ++ [".env"])) = .ok ["app", "config", ".env"] := by
      unfold Disk.locate?
      rw [hroom.text]
      exact hplace
    unfold Disk.bytes? Disk.find Disk.findPlace
    rw [hlocate]
    rfl
  · rename_i hother
    have hnone : [(".env", Node.link "config/.env"), ("config", .dir [(".env", .file unsetFile)])].lookup name =
        none := by
      rw [List.lookup_cons, beq_false_of_ne hother, List.lookup_cons, beq_false_of_ne hname]
      rfl
    unfold Disk.bytes?
    rw [linkedProject, (isDirectory_projectDisk _).find_eq hroom (by simp [hnone]), hnone]
    rfl

def linkedConfig : Config := { envFile := some ".env", maxDepth := 0 }

def linkedTask : FolderTask := ⟨["app"], none, ["app"]⟩

def linkedFound : Found := ⟨[("API_KEY", [".env"])]⟩

def linkedPlan : Plan :=
  ⟨".env", ["app", "config", ".env"], linkedFound, OrderedMap.ofList [("API_KEY", "")], some ["API_KEY"]⟩

theorem scan_linkedProject : scan linkedProject (.ofRoot ["app"]) false [] 32 = .ok linkedFound := by
  have hroom : ∀ name ∈ Name.sourceFiles, HasRoomFor ["app"] name ∧ name ≠ "config" := by decide
  have hscan := scanSettings_eq_of_bytes (isDirectory_projectDisk _) fun name hname =>
    bytes?_linkedProject (hroom name hname).1 (hroom name hname).2
  have hother : ∀ other ∈ Name.sourceFiles, other ≠ ".env" → keysNamed (linkedContent other) = [] := by
    intro other _ hne
    rw [linkedContent, if_neg hne]
    rfl
  rw [mentions_of_only_file (by decide) hother, linkedContent, if_pos rfl, keysNamed_unsetFile] at hscan
  exact hscan

theorem exists_chooseTasks_linkedProject (input : List String) :
    ∃ chosen, Succeeds (chooseTasks linkedConfig "/app") (.start linkedProject input) [linkedTask] chosen ∧
      chosen.disk = linkedProject ∧ chosen.terminal.input = input := by
  have hpath : Pathname.ofString "/app" = .ofRoot ["app"] := by decide
  have hfolder : IsDirectory linkedProject ["app"] _ := isDirectory_projectDisk _
  have hroot : Succeeds (chooseRoot "/app") (.start linkedProject input) (some ["app"])
      (.start linkedProject input) := succeeds_chooseRoot (hpath ▸ hfolder.resolve_eq) hfolder
  have hroom : ∀ name ∈ Name.markerFiles, HasRoomFor ["app"] name ∧ name ≠ "config" := by decide
  have hmarkers := markersIn_of_bytes fun name hname =>
    bytes?_linkedProject (hroom name hname).1 (hroom name hname).2
  have hfound : discover linkedProject (.ofRoot ["app"]) 0 = .ok [⟨".", ["app"], [".env"]⟩] :=
    discover_of_isDirectory hfolder hmarkers (by decide) le_rfl
  obtain ⟨greeted, hgreeted, hdisk₁, -, hinput₁⟩ :=
    exists_succeeds_display (.start linkedProject input) banner
  obtain ⟨told, htold, hdisk₂, -, hinput₂⟩ := exists_succeeds_display greeted
    [line "[green]✔ Found env files in 1 folder[/green]"]
  refine ⟨told, ?_, hdisk₂.trans hdisk₁, hinput₂.trans hinput₁⟩
  refine succeeds_bind_iff.mpr ⟨some ["app"], _, hroot, ?_⟩
  refine succeeds_bind_iff.mpr ⟨(), greeted, hgreeted, ?_⟩
  rw [← show greeted.disk = linkedProject from hdisk₁] at hfound
  refine succeeds_bind_iff.mpr ⟨_, greeted, succeeds_lookUp_iff.mpr ⟨hfound, rfl⟩, ?_⟩
  refine succeeds_bind_iff.mpr ⟨(), told, htold, ?_⟩
  exact succeeds_bind_iff.mpr ⟨some (.one ⟨".", ["app"], [".env"]⟩), told,
    succeeds_talk_iff.mpr ⟨told.terminal, succeeds_pure_iff.mpr ⟨rfl, rfl⟩, rfl⟩,
    succeeds_pure_iff.mpr ⟨rfl, rfl⟩⟩

theorem exists_plan_linkedProject {world : World} (hdisk : world.disk = linkedProject)
    (hinput : world.terminal.input = ["", "secret"]) :
    ∃ planned, Succeeds (Command.plan linkedConfig linkedTask) world (some linkedPlan) planned ∧
      planned.disk = linkedProject ∧ planned.tally = .start ∧ planned.terminal.input = ["secret"] := by
  have hscan := scan_linkedProject
  have hresolve : linkedProject.resolve (linkedTask.path ".env") = .ok ["app", "config", ".env"] := by
    have hpath : linkedTask.path ".env" = .ofRoot ["app", ".env"] := by decide
    rw [hpath]
    exact Follows.resolve_eq hasNoLinkCycles_linkedProject rfl
      (.down (by decide) (by rintro _ ⟨⟩) (.through (by decide) rfl follows_linkedProject .done)) (by decide)
  have hexisting : readSettings linkedProject (.ofRoot ["app", "config", ".env"]) =
      .ok (OrderedMap.ofList [("API_KEY", "")]) := by
    rw [← settingsOf_unsetFile]
    have hroom : HasRoomFor ["app", "config"] ".env" := by decide
    exact readSettings_of_bytes (congrArg (Except.map _) (isFolder_linkedProject.find_eq hroom))
  have hmode : Mode.ofLine? (reconcile linkedFound (OrderedMap.ofList [("API_KEY", "")])) "" =
      some (.fill .missing) := by decide
  rw [← hdisk] at hscan hexisting hresolve ⊢
  exact exists_succeeds_plan rfl hscan rfl rfl hresolve hexisting hinput hmode rfl (by decide)

def filledFile : List UInt8 := Utf8.encodeText "API_KEY=secret\n".toList

theorem exists_ask_linkedProject {world : World} (hdisk : world.disk = linkedProject)
    (htally : world.tally = .start) (hinput : world.terminal.input = ["secret"]) :
    ∃ asked, Succeeds linkedPlan.ask world () asked ∧
      asked.disk = linkedProject.put ["app", "config", ".env"] (.file filledFile) ∧
      asked.tally.keys = ["API_KEY"] := by
  obtain ⟨started, hstarted, hdisk₁, htally₁, hinput₁⟩ :=
    exists_succeeds_talk (exists_succeeds_startSession world.terminal)
  have hstartedDisk : started.disk = linkedProject := hdisk₁.trans hdisk
  have hfolder : IsFolder started.disk ["app", "config"] _ := hstartedDisk ▸ isFolder_linkedProject
  have hcontent : [(".env", Node.file unsetFile)].lookup ".env" = (some unsetFile).map .file := rfl
  have hname : ["API_KEY"][(Session.start (OrderedMap.ofList [("API_KEY", "")])).index]? = some "API_KEY" := rfl
  obtain ⟨asked, hanswered, hsaved, -, hcounted, -⟩ :=
    exists_answers_value linkedFound (.start _) hfolder (by decide) hcontent hname (hinput₁.trans hinput)
      (by decide) (by decide) (by decide) (by decide)
  have hbytes : setEntries (OrderedMap.ofList [("API_KEY", "secret")]) (some unsetFile) = filledFile := by
    decide +kernel
  refine ⟨asked, succeeds_askAll hstarted (.final hanswered rfl), ?_, ?_⟩
  · rw [hsaved, hstartedDisk, hbytes]
    rfl
  · rw [hcounted, htally₁, htally]
    rfl

/-- What comes after the questions leaves the file as they left it. -/
theorem shown_fill_linkedProject {world asked : World} (hasked : Succeeds linkedPlan.ask world () asked)
    (hdisk : asked.disk = linkedProject.put ["app", "config", ".env"] (.file filledFile)) :
    (outcome (linkedPlan.fill linkedConfig linkedTask) world).2.disk.shown ["app", "config", ".env"] =
      some (.file filledFile) := by
  have hold : linkedProject.top.get? ["app", "config", ".env"] = (some unsetFile).map .file := rfl
  have hchanges := changesOnly_put_file filledFile hold
  rw [← hdisk] at hchanges
  have hthere : asked.disk.shown linkedPlan.target = some (.file filledFile) := by
    rw [hdisk]
    rfl
  have hcycles := hasNoLinkCycles_linkedProject.congr hchanges.links
  unfold Plan.fill
  rw [outcome_bind, succeeds_attempt hasked]
  exact (shown_finish hcycles (by simp [hthere])).trans hthere

/-- A run in a project with a link saves a value in the file that the link leads to. -/
theorem run_changes_only_its_files_of_linkedProject :
    HasNoLinkCycles linkedProject.top ∧
      (∃ filling ∈ fillings linkedConfig "/app" (.start linkedProject ["", "secret"]),
        filling.target = ["app", "config", ".env"] ∧ filling.saved = ["API_KEY"]) ∧
      (outcome (run linkedConfig "/app") (.start linkedProject ["", "secret"])).2.disk.shown
        ["app", "config", ".env"] = some (.file filledFile) ∧
      (∀ filling ∈ fillings linkedConfig "/app" (.start linkedProject ["", "secret"]),
        linkedProject.resolve (filling.task.path filling.file) = .ok filling.target ∧
          filling.IsAsked) ∧
      AccountFor linkedConfig (fillings linkedConfig "/app" (.start linkedProject ["", "secret"]))
        linkedProject (outcome (run linkedConfig "/app") (.start linkedProject ["", "secret"])).2.disk ∧
      ((∀ filling ∈ fillings linkedConfig "/app" (.start linkedProject ["", "secret"]), filling.saved = []) →
        ChangesOnly (fun _ => False)
          (fun place => ∃ filling ∈ fillings linkedConfig "/app" (.start linkedProject ["", "secret"]),
            IsFailure filling.ending ∧ IsAbove place filling.target)
          linkedProject (outcome (run linkedConfig "/app") (.start linkedProject ["", "secret"])).2.disk) := by
  obtain ⟨chosen, hchosen, hdisk₁, hinput₁⟩ := exists_chooseTasks_linkedProject ["", "secret"]
  obtain ⟨planned, hplanned, hdisk₂, htally₂, hinput₂⟩ := exists_plan_linkedProject hdisk₁ hinput₁
  obtain ⟨asked, hasked, hdisk₃, hkeys⟩ := exists_ask_linkedProject hdisk₂ htally₂ hinput₂
  have hfilled := shown_fill_linkedProject hasked hdisk₃
  rw [← disk_run_of_plan hchosen hplanned] at hfilled
  refine ⟨hasNoLinkCycles_linkedProject, ⟨.of linkedTask linkedPlan planned, ?_, rfl, ?_⟩, hfilled,
    run_changes_only_its_files linkedConfig "/app" linkedProject ["", "secret"] hasNoLinkCycles_linkedProject⟩
  · rw [fillings_of_plan hchosen hplanned]
    exact List.mem_singleton_self _
  · rw [Filling.of, hasked]
    exact hkeys

/-! ### A save that fails -/

def lonelyProject : Disk :=
  projectDisk [(".env.local.example", .file (Utf8.encodeText "API_KEY=\n".toList))]

theorem isFolder_lonelyProject : IsFolder lonelyProject ["app"]
    [(".env.local.example", .file (Utf8.encodeText "API_KEY=\n".toList))] :=
  isFolder_projectDisk rfl

def lonelyTarget : Location := ["app", "new", longName]

def lonelyProjectAfter : Disk := lonelyProject.put ["app", "new"] (.dir [])

theorem isFolder_lonelyProjectAfter : IsFolder lonelyProjectAfter ["app", "new"] [] where
  text := by decide
  names := by decide
  short := by decide
  linkFree := isLinkFree_of_linkCount rfl _
  get_eq := rfl
  linkCount_eq := rfl

theorem isName_lonelyTarget : ∀ name ∈ lonelyTarget, IsName name := by
  have hshort : ∀ text : String, text.utf8ByteSize < 250 → longName ≠ text := by
    rintro text hless rfl
    exact absurd utf8ByteSize_longName hless.ne
  have hlong : IsName longName :=
    ⟨hshort "" (by decide), hshort "." (by decide), hshort ".." (by decide)⟩
  simp only [lonelyTarget, List.forall_mem_cons]
  exact ⟨by decide, by decide, hlong, List.forall_mem_nil _⟩

theorem hasZero_lonelyTarget : (Pathname.ofRoot lonelyTarget).hasZero = false := by
  have hlong : '\x00' ∉ longName.toList := by
    rw [toList_longName]
    decide
  simp [Pathname.hasZero, Pathname.ofRoot, lonelyTarget, hlong]

theorem checkText_lonelyTarget : Disk.checkText (.ofRoot lonelyTarget) = .ok () := by
  have hpath : (Pathname.ofRoot lonelyTarget).toString = "/" ++ ("app/new/" ++ longName) := rfl
  have hshort : ¬maxPathBytes < (Pathname.ofRoot lonelyTarget).toString.utf8ByteSize := by
    rw [hpath, String.utf8ByteSize_append, String.utf8ByteSize_append, utf8ByteSize_longName]
    decide
  unfold Disk.checkText
  rw [hasZero_lonelyTarget, if_neg Bool.false_ne_true, if_neg hshort]

theorem resolve_lonelyTarget : lonelyProject.resolve (.ofRoot lonelyTarget) = .ok lonelyTarget :=
  Disk.resolve_ofRoot isName_lonelyTarget (isLinkFree_of_linkCount rfl _) hasZero_lonelyTarget

theorem find_lonelyTarget : lonelyProject.find (.ofRoot lonelyTarget) = .ok none := by
  have hlong : isTooLong longName = false := by
    rw [isTooLong, utf8ByteSize_longName]
    rfl
  have hshort : ∀ name ∈ lonelyTarget, isTooLong name = false := by
    simp only [lonelyTarget, List.forall_mem_cons]
    exact ⟨by decide, by decide, hlong, List.forall_mem_nil _⟩
  exact Disk.find_ofRoot_of_none isName_lonelyTarget (isLinkFree_of_linkCount rfl _)
    checkText_lonelyTarget hshort rfl

theorem path_lonelyTarget :
    FolderTask.path ⟨["app"], none, ["app"]⟩ ("new/" ++ longName) = .ofRoot lonelyTarget := by
  have htext : ("new/" ++ longName).toList = endEach '/' ["new".toList] ++ longName.toList :=
    String.toList_append
  have hplain : ∀ part ∈ ["new".toList] ++ [longName.toList], ∀ c ∈ part, (c == '/') = false := by
    have hlong : ∀ c ∈ longName.toList, (c == '/') = false := by
      intro c hc
      rw [toList_longName] at hc
      rw [List.eq_of_mem_replicate hc]
      decide
    rw [List.singleton_append, List.forall_mem_cons, List.forall_mem_singleton]
    exact ⟨by simp, hlong⟩
  have hparts : Pathname.partsOf ("new/" ++ longName).toList = ["new", longName] := by
    rw [Pathname.partsOf, htext, splitAtEach_endEach_append_last (by decide) hplain, toList_longName]
    rfl
  have hpath : Pathname.ofString ("new/" ++ longName) = ⟨.current, ["new", longName]⟩ := by
    rw [Pathname.ofString, hparts, htext]
    rfl
  rw [FolderTask.path, hpath]
  rfl

/-- The directory is made, and then there is no room for the draft. -/
theorem fails_writeSettings_lonelyProject (writes : Entries) :
    Fails (writeSettings (.ofRoot lonelyTarget) writes) lonelyProject
      (.notWritten (.ofRoot lonelyTarget) .nameTooLong) lonelyProjectAfter := by
  have hdirectories : Succeeds (ensureDirectories (.ofRoot ["app", "new"])) lonelyProject ()
      lonelyProjectAfter :=
    isFolder_lonelyProject.isDirectory.succeeds_ensureDirectories_new (by decide) (by decide) (by decide) rfl
  have hplain : Pathname.withoutParents ["app", "new"] = ["app", "new"] := by decide
  have hdraft : lonelyProjectAfter.checkDraft (.ofRoot lonelyTarget) = .error .nameTooLong := by
    have hzero : longName.toList.contains '\x00' = false := by
      rw [toList_longName]
      decide
    have hlast : (Pathname.ofRoot lonelyTarget).name? = some longName := rfl
    have hparent : (Pathname.ofRoot lonelyTarget).parent.parts = ["app", "new"] := rfl
    unfold Disk.checkDraft
    rw [hlast, hparent, hplain, Option.getD_some]
    dsimp only
    rw [hzero, utf8ByteSize_longName, if_neg Bool.false_ne_true, if_neg (by decide), if_pos (by decide),
      isFolder_lonelyProjectAfter.isDirectory.locateDirectory?_eq]
    rfl
  have hreplace : Fails (replaceFile (.ofRoot lonelyTarget) (setEntries writes none))
      lonelyProject .nameTooLong lonelyProjectAfter :=
    fails_replaceFile_iff_steps.mpr (.inr ⟨hdirectories, .draft hdraft⟩)
  have hcontent : contentAt lonelyProject (.ofRoot lonelyTarget) = .ok none := by
    unfold contentAt
    rw [find_lonelyTarget]
    rfl
  refine fails_bind_iff.mpr (.inr ⟨lonelyTarget, _,
    Edit.succeeds_look_iff.mpr ⟨followed_eq_ok_iff.mpr resolve_lonelyTarget, rfl⟩, ?_⟩)
  refine fails_bind_iff.mpr (.inr ⟨none, _, Edit.succeeds_look_iff.mpr ⟨hcontent, rfl⟩, ?_⟩)
  exact fails_bind_iff.mpr (.inl (Edit.fails_mapError_iff.mpr ⟨_, hreplace, rfl⟩))

def longConfig : Config := { envFile := some ("new/" ++ longName) }

def lonelyTask : FolderTask := ⟨["app"], none, ["app"]⟩

def lonelyFound : Found := ⟨[("API_KEY", [".env.local.example"])]⟩

def lonelyPlan : Plan :=
  ⟨"new/" ++ longName, lonelyTarget, lonelyFound, ∅, some ["API_KEY"]⟩

theorem exists_chooseTasks_lonelyProject (input : List String) :
    ∃ chosen, Succeeds (chooseTasks longConfig "/app") (.start lonelyProject input) [lonelyTask] chosen ∧
      chosen.disk = lonelyProject ∧ chosen.terminal.input = input := by
  have hpath : Pathname.ofString "/app" = .ofRoot ["app"] := by decide
  have hroot : Succeeds (chooseRoot "/app") (.start lonelyProject input) (some ["app"])
      (.start lonelyProject input) :=
    succeeds_chooseRoot (hpath ▸ isFolder_lonelyProject.resolve_eq) isFolder_lonelyProject.isDirectory
  have hnone : discover lonelyProject (.ofRoot ["app"]) 8 = .ok [] :=
    discover_of_isFolder isFolder_lonelyProject (by decide) (by simp [Node.isDir]) (by decide) rfl
  obtain ⟨greeted, hgreeted, hdisk₁, -, hinput₁⟩ :=
    exists_succeeds_display (.start lonelyProject input) banner
  obtain ⟨told, htold, hdisk₂, -, hinput₂⟩ := exists_succeeds_display greeted
    [line "[yellow]⚠ No env files found in any folder[/yellow]"]
  refine ⟨told, ?_, hdisk₂.trans hdisk₁, hinput₂.trans hinput₁⟩
  refine succeeds_bind_iff.mpr ⟨some ["app"], _, hroot, ?_⟩
  refine succeeds_bind_iff.mpr ⟨(), greeted, hgreeted, ?_⟩
  refine succeeds_bind_iff.mpr ⟨[], greeted, succeeds_lookUp_iff.mpr ⟨?_, rfl⟩, ?_⟩
  · rw [hdisk₁]
    exact hnone
  · exact succeeds_bind_iff.mpr ⟨(), told, htold, succeeds_pure_iff.mpr ⟨rfl, rfl⟩⟩

theorem exists_plan_lonelyProject {world : World} (hdisk : world.disk = lonelyProject)
    (hinput : world.terminal.input = ["", "secret"]) :
    ∃ planned, Succeeds (Command.plan longConfig lonelyTask) world (some lonelyPlan) planned ∧
      planned.disk = lonelyProject ∧ planned.tally = .start ∧ planned.terminal.input = ["secret"] := by
  have hkey : keysNamed (some (Utf8.encodeText "API_KEY=\n".toList)) = ["API_KEY"] :=
    (keysNamed_encodeText _).trans (by decide)
  have hscan : scan lonelyProject (.ofRoot ["app"]) false [] 32 = .ok lonelyFound := by
    refine scanSettings_eq_of_only isFolder_lonelyProject (by decide) (by decide) hkey fun other _ hne => ?_
    rw [List.lookup_cons, beq_false_of_ne hne]
    rfl
  have hexisting : readSettings lonelyProject (.ofRoot lonelyTarget) = .ok ∅ := by
    unfold readSettings Disk.bytes?
    rw [find_lonelyTarget]
    rfl
  have hfile : longConfig.envFile.filter (!·.isEmpty) = some ("new/" ++ longName) := by decide +kernel
  have hresolve : lonelyProject.resolve (lonelyTask.path ("new/" ++ longName)) = .ok lonelyTarget := by
    rw [lonelyTask, path_lonelyTarget]
    exact resolve_lonelyTarget
  have hmode : Mode.ofLine? (reconcile lonelyFound ∅) "" = some (.fill .missing) := by decide
  rw [← hdisk] at hscan hexisting hresolve ⊢
  exact exists_succeeds_plan rfl hscan rfl hfile hresolve hexisting hinput hmode rfl (by decide)

theorem exists_ask_lonelyProject {world : World} (hdisk : world.disk = lonelyProject)
    (hinput : world.terminal.input = ["secret"]) :
    ∃ asked, Fails lonelyPlan.ask world
        (.notWritten (.ofRoot lonelyTarget) .nameTooLong) asked ∧
      asked.disk = lonelyProjectAfter ∧ asked.tally = world.tally := by
  obtain ⟨started, hstarted, hdisk₁, htally₁, hinput₁⟩ :=
    exists_succeeds_talk (exists_succeeds_startSession world.terminal)
  have hanswer : ∃ later, Succeeds
      (askValue ((Session.start ∅).question ["API_KEY"] lonelyFound "API_KEY")) started.terminal
        (.value "secret") later ∧ later.input = [] :=
    exists_succeeds_askValue (hinput₁.trans hinput) (by cbv) (by decide) (by decide)
  obtain ⟨asked, hasked, hdisk₂, htally₂, -⟩ := exists_succeeds_talk hanswer
  have hwrite : Fails (writeSettings (.ofRoot lonelyTarget)
      (OrderedMap.ofList [("API_KEY", "secret")])) asked.disk
        (.notWritten (.ofRoot lonelyTarget) .nameTooLong) lonelyProjectAfter := by
    rw [hdisk₂, hdisk₁, hdisk]
    exact fails_writeSettings_lonelyProject _
  have hchange := outcome_change (writeSettings (.ofRoot lonelyTarget)
      (OrderedMap.ofList [("API_KEY", "secret")])) asked
  rw [hwrite] at hchange
  refine ⟨{ asked with disk := lonelyProjectAfter }, ?_, rfl, htally₂.trans htally₁⟩
  refine fails_bind_iff.mpr (.inr ⟨(), started, hstarted, ?_⟩)
  refine fails_bind_iff.mpr (.inr ⟨started, started, succeeds_get_iff.mpr ⟨rfl, rfl⟩, ?_⟩)
  refine fails_bind_iff.mpr (.inl ?_)
  have hname : (["API_KEY"] : List String)[(Session.start ∅).index]? = some "API_KEY" := rfl
  change Fails (Session.run ["API_KEY"] lonelyFound (fun question => talk (askValue question))
    (save lonelyTarget lonelyFound) (started.terminal.input.length + 1) (.start ∅)) started
      _ _
  rw [Session.run_of_some hname]
  refine fails_bind_iff.mpr (.inr ⟨.value "secret", asked, hasked, fails_bind_iff.mpr (.inl ?_)⟩)
  exact fails_bind_iff.mpr (.inl hchange)

/-- Where a save fails that is told of, and none has succeeded, the folder is done. -/
theorem disk_fill_of_fails {config : Config} {task : FolderTask} {plan : Plan} {world asked : World}
    {error : Error} (hasked : Fails plan.ask world error asked) (hreported : error.isReported = true)
    (hkeys : asked.tally.keys = []) :
    (outcome (plan.fill config task) world).2.disk = asked.disk := by
  unfold Plan.fill
  rw [outcome_bind, outcome_attempt, hasked]
  dsimp only
  rw [if_pos hreported]
  exact disk_finish_of_nil plan.target plan.file hkeys

/-- **A save that fails may leave a directory.** The run saves nothing, and there is a new directory. -/
theorem failed_save_leaves_directory :
    ¬∀ (config : Config) (target : String) (disk : Disk) (input : List String),
      HasNoLinkCycles disk.top →
        (∀ filling ∈ fillings config target (.start disk input), filling.saved = []) →
          ∀ place, (outcome (run config target) (.start disk input)).2.disk.shown place =
            disk.shown place := by
  intro hall
  obtain ⟨chosen, hchosen, hdisk₁, hinput₁⟩ := exists_chooseTasks_lonelyProject ["", "secret"]
  obtain ⟨planned, hplanned, hdisk₂, htally₂, hinput₂⟩ := exists_plan_lonelyProject hdisk₁ hinput₁
  obtain ⟨asked, hasked, hdisk₃, htally₃⟩ := exists_ask_lonelyProject hdisk₂ hinput₂
  have hsaved : (Filling.of lonelyTask lonelyPlan planned).saved = [] := by
    rw [Filling.of, hasked]
    exact congrArg Tally.keys (htally₃.trans htally₂)
  have hfillings : ∀ filling ∈ fillings longConfig "/app" (.start lonelyProject ["", "secret"]),
      filling.saved = [] := by
    rw [fillings_of_plan hchosen hplanned, List.forall_mem_singleton]
    exact hsaved
  have hsame := hall longConfig "/app" lonelyProject ["", "secret"]
    (hasNoLinkCycles_of_linkCount rfl) hfillings ["app", "new"]
  have hfilled : (outcome (lonelyPlan.fill longConfig lonelyTask) planned).2.disk = asked.disk :=
    disk_fill_of_fails hasked rfl (congrArg Tally.keys (htally₃.trans htally₂))
  rw [disk_run_of_plan hchosen hplanned, hfilled, hdisk₃] at hsame
  cases hsame

end EnvFill.Command
