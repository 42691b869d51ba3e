import EnvFill.Proofs.EditedFiles
import EnvFill.Proofs.SavedAnswers

/-!
# A folder that is filled in

Filling in a folder finds its variables, asks for those without a value, writes the answers to one
file, and adds the keys to the template. After a run in which every variable was given a value, the
same scan finds nothing that is missing.
-/

namespace EnvFill.Command

open Procedure Storage EnvFile Fill Project Screen Text

variable {config : Config} {task : FolderTask} {file : String} {target : Location}
  {found : Found} {existing : Entries} {before after world : World} {answers : List Response}
  {saved : Nat}

/-! ### The steps of a run -/

theorem leavesDisk_announce (label : Option String) : LeavesDisk (announce label) := by
  cases label with
  | none => exact leavesDisk_pure ()
  | some label => exact leavesDisk_display _

theorem leavesDisk_chooseTarget (config : Config) (task : FolderTask) :
    LeavesDisk (chooseTarget config task) := by
  unfold chooseTarget
  split
  · exact leavesDisk_pure _
  · exact (leavesDisk_lookUp _).bind fun existing => leavesDisk_talk _

theorem leavesDisk_checkIgnored (task : FolderTask) (target : Location) (file : String) :
    LeavesDisk (checkIgnored task target file) := by
  refine (leavesDisk_lookUp _).bind fun ignored => ?_
  split
  · exact leavesDisk_display _
  · exact leavesDisk_pure _

theorem disk_of_checkIgnored (hcheck : Succeeds (checkIgnored task target file) world () after) :
    after.disk = world.disk ∧ after.tally = world.tally := by
  unfold checkIgnored at hcheck
  obtain ⟨_, _, hlook, hwarn⟩ := succeeds_bind_iff.mp hcheck
  obtain ⟨-, rfl⟩ := succeeds_lookUp_iff.mp hlook
  split at hwarn
  · exact disk_of_talk hwarn
  · obtain ⟨-, rfl⟩ := succeeds_pure_iff.mp hwarn
    exact ⟨rfl, rfl⟩

def IsTemplate (config : Config) (task : FolderTask) (target : Location) (disk : Disk)
    (place : Location) : Prop :=
  config.syncExample = true ∧ place ≠ target ∧
    disk.resolve (task.path config.exampleFile) = .ok place

/-- However it ends, adding keys to the template leaves the counts alone, and the disk too unless the
template is written. -/
theorem after_syncKeys (config : Config) (task : FolderTask) (target : Location) (world : World) :
    (outcome (syncKeys config task target) world).2.tally = world.tally ∧
      ((outcome (syncKeys config task target) world).2.disk = world.disk ∨
        ∃ template, IsTemplate config task target world.disk template ∧
          (outcome (syncKeys config task target) world).2.disk =
            (outcome (syncTemplate (.ofRoot template) world.tally.keys) world.disk).2) := by
  unfold syncKeys
  rw [outcome_bind, outcome_lookUp]
  cases hlook : followed (world.disk.resolve (task.path config.exampleFile)) with
  | error error => exact ⟨rfl, .inl rfl⟩
  | ok template =>
    dsimp only
    split
    · rename_i hsync
      simp only [Bool.and_eq_true, decide_eq_true_eq] at hsync
      rw [outcome_bind, succeeds_get_iff.mpr ⟨rfl, rfl⟩]
      dsimp only
      constructor
      · rw [kept_bind (f := World.tally) fun _ _ => rfl, tally_attempt,
          kept_bind (f := World.tally) fun _ _ => rfl, outcome_change]
      · refine .inr ⟨template, ⟨hsync.1, hsync.2, followed_eq_ok_iff.mp hlook⟩, ?_⟩
        rw [disk_bind_of_leavesDisk fun _ => leavesDisk_pure _, disk_attempt,
          disk_bind_of_leavesDisk fun _ => leavesDisk_display _, outcome_change]
    · exact ⟨rfl, .inl rfl⟩

theorem tally_of_syncKeys (hsync : Succeeds (syncKeys config task target) world () after) :
    after.tally = world.tally := by
  have htally := (after_syncKeys config task target world).1
  rwa [hsync] at htally

def TemplateIsWritten (config : Config) (task : FolderTask) (target : Location) (world : World) :
    Prop :=
  ∀ template, world.disk.resolve (task.path config.exampleFile) = .ok template →
    template ≠ target → config.syncExample = true → world.tally.keys ≠ [] →
      ∃ count disk, Succeeds (syncTemplate (.ofRoot template) world.tally.keys) world.disk count disk

theorem disk_of_syncKeys (hwritten : TemplateIsWritten config task target world)
    (hkeys : world.tally.keys ≠ []) (hsync : Succeeds (syncKeys config task target) world () after) :
    after.disk = world.disk ∨ ∃ template count,
      world.disk.resolve (task.path config.exampleFile) = .ok template ∧
        Succeeds (syncTemplate (.ofRoot template) world.tally.keys) world.disk count after.disk := by
  have hafter := (after_syncKeys config task target world).2
  rw [hsync] at hafter
  rcases hafter with hsame | ⟨template, ⟨hon, hne, hresolve⟩, hdisk⟩
  · exact .inl hsame
  · obtain ⟨count, disk, hwrite⟩ := hwritten template hresolve hne hon hkeys
    rw [hwrite] at hdisk
    exact .inr ⟨template, count, hresolve, hdisk ▸ hwrite⟩

theorem leavesDisk_summary (file : String) : LeavesDisk (do
    let saved := (← get).tally.saved
    display (summary saved file)
    return saved) :=
  leavesDisk_get.bind fun _ => (leavesDisk_display _).bind fun _ => leavesDisk_pure _

/-- After the questions, only the template may still change. -/
theorem disk_of_finish (hwritten : TemplateIsWritten config task target world)
    (hfinish : Succeeds (finish config task target file) world saved after) :
    after.disk = world.disk ∨ ∃ template count,
      world.disk.resolve (task.path config.exampleFile) = .ok template ∧
        Succeeds (syncTemplate (.ofRoot template) world.tally.keys) world.disk count after.disk := by
  unfold finish at hfinish
  obtain ⟨_, _, hget, hkept⟩ := succeeds_bind_iff.mp hfinish
  obtain ⟨rfl, rfl⟩ := succeeds_get_iff.mp hget
  split at hkept
  · rename_i hkeys
    obtain ⟨_, checked, hcheck, hrest⟩ := succeeds_bind_iff.mp hkept
    obtain ⟨_, synced, hsync, hclose⟩ := succeeds_bind_iff.mp hrest
    obtain ⟨hdisk, htally⟩ := disk_of_checkIgnored hcheck
    have hne : checked.tally.keys ≠ [] := by
      rw [htally]
      simpa using hkeys
    have hchecked : TemplateIsWritten config task target checked := by
      unfold TemplateIsWritten
      rwa [hdisk, htally]
    rw [(leavesDisk_summary file).of_succeeds hclose, ← hdisk, ← htally]
    exact disk_of_syncKeys hchecked hne hsync
  · exact .inl ((leavesDisk_summary file).of_succeeds hkept)

theorem exists_succeeds_summary (world : World) (file : String) :
    ∃ after, Succeeds (do
      let saved := (← get).tally.saved
      display (summary saved file)
      return saved : Procedure Nat) world world.tally.saved after := by
  obtain ⟨after, hdisplay, -⟩ := exists_succeeds_display world (summary world.tally.saved file)
  refine ⟨after, succeeds_bind_iff.mpr ⟨world, world, succeeds_get_iff.mpr ⟨rfl, rfl⟩, ?_⟩⟩
  exact succeeds_bind_iff.mpr ⟨(), after, hdisplay, succeeds_pure_iff.mpr ⟨rfl, rfl⟩⟩

/-- Without an ignore file nothing is ignored. -/
theorem isIgnored?_of_none {project : Location} {entries : List (String × Node)} {disk : Disk}
    (hproject : IsFolder disk project entries) (hroom : HasRoomFor project ".gitignore")
    (hnone : entries.lookup ".gitignore" = none) (path : Pathname) :
    isIgnored? disk (.ofRoot project) path = .ok none := by
  have hfile : (Pathname.ofRoot project).join (.ofString ".gitignore") =
      .ofRoot (project ++ [".gitignore"]) := by
    have hname : Pathname.ofString ".gitignore" = ⟨.current, [".gitignore"]⟩ := by decide
    rw [hname]
    rfl
  unfold isIgnored? Disk.bytes?
  rw [hfile, hproject.find_eq hroom, hnone]
  rfl

theorem exists_succeeds_checkIgnored (file : String) {ignored : Option Bool}
    (hignored : isIgnored? world.disk (.ofRoot task.project) (.ofRoot target) = .ok ignored) :
    ∃ checked, Succeeds (checkIgnored task target file) world () checked := by
  have hlook : Succeeds (lookUp fun disk => isIgnored? disk (.ofRoot task.project) (.ofRoot target))
      world ignored world := succeeds_lookUp_iff.mpr ⟨hignored, rfl⟩
  by_cases hwarn : ignored = some false
  · obtain ⟨checked, hdisplay, -⟩ := exists_succeeds_display world (notIgnoredWarning file)
    refine ⟨checked, succeeds_bind_iff.mpr ⟨ignored, world, hlook, ?_⟩⟩
    rwa [if_pos hwarn]
  · refine ⟨world, succeeds_bind_iff.mpr ⟨ignored, world, hlook, ?_⟩⟩
    rw [if_neg hwarn]
    exact succeeds_pure_iff.mpr ⟨rfl, rfl⟩

theorem exists_succeeds_syncKeys {template : Location}
    (hresolve : world.disk.resolve (task.path config.exampleFile) = .ok template)
    (hwritten : TemplateIsWritten config task target world) (hkeys : world.tally.keys ≠ []) :
    ∃ synced, Succeeds (syncKeys config task target) world () synced ∧
      synced.tally = world.tally := by
  have hlook : Succeeds (lookUp fun disk => followed (disk.resolve (task.path config.exampleFile)))
      world template world := succeeds_lookUp_iff.mpr ⟨followed_eq_ok_iff.mpr hresolve, rfl⟩
  by_cases hon : (config.syncExample && template ≠ target) = true
  · have hparts := hon
    simp only [Bool.and_eq_true, decide_eq_true_eq] at hparts
    obtain ⟨count, disk, hwrite⟩ := hwritten template hresolve hparts.2 hparts.1 hkeys
    obtain ⟨synced, hdisplay, -, htally, -⟩ := exists_succeeds_display { world with disk := disk }
      (syncedLine count config.exampleFile)
    refine ⟨synced, succeeds_bind_iff.mpr ⟨template, world, hlook, ?_⟩, htally⟩
    rw [if_pos hon]
    refine succeeds_bind_iff.mpr ⟨world, world, succeeds_get_iff.mpr ⟨rfl, rfl⟩, ?_⟩
    refine succeeds_bind_iff.mpr
      ⟨some (), synced, succeeds_attempt ?_, succeeds_pure_iff.mpr ⟨rfl, rfl⟩⟩
    exact succeeds_bind_iff.mpr ⟨count, _, succeeds_change_iff.mpr ⟨disk, hwrite, rfl⟩, hdisplay⟩
  · refine ⟨world, succeeds_bind_iff.mpr ⟨template, world, hlook, ?_⟩, rfl⟩
    rw [if_neg hon]
    exact succeeds_pure_iff.mpr ⟨rfl, rfl⟩

/-- Nothing stops a run after the questions, if the ignore file can be read. -/
theorem exists_succeeds_finish {ignored : Option Bool} {template : Location}
    (hignored : isIgnored? world.disk (.ofRoot task.project) (.ofRoot target) = .ok ignored)
    (hresolve : world.disk.resolve (task.path config.exampleFile) = .ok template)
    (hwritten : TemplateIsWritten config task target world) :
    ∃ after, Succeeds (finish config task target file) world world.tally.saved after := by
  by_cases hkeys : world.tally.keys = []
  · obtain ⟨after, hclose⟩ := exists_succeeds_summary world file
    refine ⟨after, succeeds_bind_iff.mpr ⟨world, world, succeeds_get_iff.mpr ⟨rfl, rfl⟩, ?_⟩⟩
    rw [hkeys]
    exact hclose
  obtain ⟨checked, hcheck⟩ := exists_succeeds_checkIgnored file hignored
  obtain ⟨hdisk, htally⟩ := disk_of_checkIgnored hcheck
  have hchecked : TemplateIsWritten config task target checked := by
    unfold TemplateIsWritten
    rwa [hdisk, htally]
  have hne : checked.tally.keys ≠ [] := by rwa [htally]
  rw [← hdisk] at hresolve
  obtain ⟨synced, hsync, hsaved⟩ := exists_succeeds_syncKeys hresolve hchecked hne
  obtain ⟨after, hclose⟩ := exists_succeeds_summary synced file
  rw [hsaved, htally] at hclose
  refine ⟨after, succeeds_bind_iff.mpr ⟨world, world, succeeds_get_iff.mpr ⟨rfl, rfl⟩, ?_⟩⟩
  dsimp only
  rw [if_pos (by simpa using hkeys)]
  exact succeeds_bind_iff.mpr ⟨(), checked, hcheck, succeeds_bind_iff.mpr ⟨(), synced, hsync, hclose⟩⟩

/-! ### An answer -/

/-- Text without blanks at its ends is taken as it is. -/
theorem accept_valuePrompt {text : String} (question : Question) (hsome : text.isEmpty = false)
    (hstrip : String.ofList (Text.strip text.toList) = text) :
    (valuePrompt question).accept text = some text := by
  rw [Prompt.accept, if_neg (by simp [hsome]), hstrip]
  rfl

/-- A value for the file of a folder is asked for, saved and counted. -/
theorem exists_answers_value {names rest : List String} {folder : Location} {entries : List (String × Node)}
    {name key text : String} {content : Option (List UInt8)} (found : Found) (session : Session)
    (hfolder : IsFolder world.disk folder entries) (hroom : HasRoomFor folder name)
    (hcontent : entries.lookup name = content.map .file) (hname : names[session.index]? = some key)
    (hinput : world.terminal.input = text :: rest) (hsome : text.isEmpty = false)
    (hstrip : String.ofList (Text.strip text.toList) = text)
    (hhelp : commandWord text ∉ ["help", "?", "list"]) (hcommand : Command.parse? text = none) :
    ∃ after, Session.Answers names found (fun question => talk (askValue question))
        (save (folder ++ [name]) found) session world key (.value text)
        (session.existing.merge (OrderedMap.ofList [(key, text)])) after ∧
      after.disk = world.disk.put (folder ++ [name])
        (.file (setEntries (OrderedMap.ofList [(key, text)]) content)) ∧
      IsFolder after.disk folder
        (putPair name (.file (setEntries (OrderedMap.ofList [(key, text)]) content)) entries) ∧
      after.tally = world.tally.add 1 [key] ∧ after.terminal.input = rest := by
  obtain ⟨asked, hasked, hdisk, htally, hrest⟩ :=
    exists_succeeds_talk (exists_succeeds_askValue hinput
      (accept_valuePrompt (session.question names found key) hsome hstrip) hhelp hcommand)
  rw [← hdisk] at hfolder
  obtain ⟨after, hsave, hwritten, hcounted⟩ := exists_succeeds_save
    (succeeds_writeSettings_of_isFolder hfolder hroom hcontent (OrderedMap.ofList [(key, text)]))
  obtain ⟨-, _, -, -, hkept⟩ := succeeds_save hsave
  refine ⟨after, ⟨hname, asked, hasked, hsave⟩, hwritten.trans (by rw [hdisk]), ?_, ?_, hkept.trans hrest⟩
  · rw [hwritten]
    exact hfolder.put hcontent
  · rw [hcounted, htally]
    rfl

/-! ### A whole run -/

/-- A run that asks for the variables of a folder without a value, with the answers that are given,
and in which no write fails. -/
inductive FillsMissing (config : Config) (task : FolderTask) (file : String) (before : World)
    (answers : List Response) (saved : Nat) (after : World) : Prop where
  | intro {found : Found} {existing : Entries} {target : Location} {last : Session}
      {announced working aimed shown chosen started answered : World}
      (hannounce : Succeeds (announce task.label) before () announced)
      (hworking : Succeeds (display [.working (workingText config.deep)]) announced () working)
      (hscan : scan working.disk (.ofRoot task.folder) config.deep config.extraIgnore
        config.scanMaxDepth = .ok found)
      (hfound : found.isEmpty = false)
      (hfile : Succeeds (chooseTarget config task) working file aimed)
      (htarget : aimed.disk.resolve (task.path file) = .ok target)
      (hexisting : readSettings aimed.disk (.ofRoot target) = .ok existing)
      (hresult : Succeeds (display (scanResult (reconcile found existing))) aimed () shown)
      (hmode : Succeeds (talk (chooseMode (reconcile found existing)))
        { shown with tally := .start } (.fill .missing) chosen)
      (hstart : Succeeds (talk startSession) chosen () started)
      (hasked : Asks (missing found existing) found target (.start existing) started answers last
        answered)
      (hwritten : TemplateIsWritten config task target answered)
      (hfinish : Succeeds (finish config task target file) answered saved after) :
      FillsMissing config task file before answers saved after

theorem mem_available_of_chooseMode {stats : Stats} {mode : Mode}
    (hmode : Succeeds (talk (chooseMode stats)) world mode after) (hexit : mode ≠ .exit) :
    mode ∈ Mode.available stats := by
  obtain ⟨terminal, hchoose, -⟩ := succeeds_talk_iff.mp hmode
  unfold chooseMode at hchoose
  obtain ⟨_, _, -, hchoose⟩ := succeeds_bind_iff.mp hchoose
  obtain ⟨answer, _, -, hchoose⟩ := succeeds_bind_iff.mp hchoose
  obtain ⟨hmode, -⟩ := succeeds_pure_iff.mp hchoose
  cases hget : (Mode.available stats)[((Mode.available stats).map Mode.word).idxOf answer]? with
  | none =>
    rw [hget] at hmode
    exact absurd hmode.symm hexit
  | some chosen =>
    rw [hget] at hmode
    exact hmode ▸ List.mem_of_getElem? hget

/-- The variables without a value are asked for only if there are some. -/
theorem missing_ne_nil_of_chooseMode
    (hmode : Succeeds (talk (chooseMode (reconcile found existing))) world (.fill .missing) after) :
    missing found existing ≠ [] := by
  have havailable := mem_available_of_chooseMode hmode (by decide)
  intro hnil
  have hset : found.names.filter (isSet existing) = found.names := by
    refine List.filter_eq_self.mpr fun name hname => ?_
    by_contra hunset
    have hmem : name ∈ missing found existing :=
      List.mem_filter.mpr ⟨hname, by simpa using hunset⟩
    rw [hnil] at hmem
    exact absurd hmem List.not_mem_nil
  have hmissing : (reconcile found existing).missing = 0 := by
    simp only [reconcile, hset, Int.sub_self]
  unfold Mode.available at havailable
  rw [hmissing] at havailable
  rcases List.mem_append.mp havailable with hmem | hmem
  · rcases List.mem_append.mp hmem with hmem | hmem
    · simp at hmem
    · split at hmem
      · simp at hmem
      · simp at hmem
  · simp at hmem

theorem succeeds_askAll {names : List String} {last : Session} {chosen started answered : World}
    (hstart : Succeeds (talk startSession) chosen () started)
    (hasked : Asks names found target (.start existing) started answers last answered) :
    Succeeds (askAll target found existing names) chosen () answered := by
  refine succeeds_bind_iff.mpr ⟨(), started, hstart, ?_⟩
  refine succeeds_bind_iff.mpr ⟨started, started, succeeds_get_iff.mpr ⟨rfl, rfl⟩, ?_⟩
  refine succeeds_bind_iff.mpr ⟨last, answered, ?_, succeeds_pure_iff.mpr ⟨rfl, rfl⟩⟩
  exact (succeeds_run_iff_asks (Nat.lt_succ_self _)).mpr ⟨answers, hasked⟩

/-- The steps of a run make it up. -/
theorem FillsMissing.succeeds (hrun : FillsMissing config task file before answers saved after) :
    Succeeds (fillFolder config task) before saved after := by
  obtain @⟨found, _, _, _, _, working, _, _, _, _, _, hannounce, hworking, hscan, hfound, hfile,
    htarget, hexisting, hresult, hmode, hstart, hasked, -, hfinish⟩ := hrun
  have hscanned : Succeeds (lookUp fun disk => scan disk (.ofRoot task.folder) config.deep
      config.extraIgnore config.scanMaxDepth) working found working :=
    succeeds_lookUp_iff.mpr ⟨hscan, rfl⟩
  refine succeeds_bind_iff.mpr ⟨(), _, hannounce, succeeds_bind_iff.mpr ⟨(), _, hworking, ?_⟩⟩
  refine succeeds_bind_iff.mpr ⟨some found, working, succeeds_attempt hscanned, ?_⟩
  dsimp only
  rw [hfound, if_neg Bool.false_ne_true]
  refine succeeds_bind_iff.mpr ⟨file, _, hfile, ?_⟩
  refine succeeds_bind_iff.mpr ⟨_, _, succeeds_lookUp_iff.mpr ⟨followed_eq_ok_iff.mpr htarget, rfl⟩, ?_⟩
  refine succeeds_bind_iff.mpr ⟨_, _, succeeds_lookUp_iff.mpr ⟨hexisting, rfl⟩, ?_⟩
  refine succeeds_bind_iff.mpr ⟨(), _, hresult, ?_⟩
  refine succeeds_bind_iff.mpr ⟨(), _, succeeds_modify_iff.mpr rfl, ?_⟩
  refine succeeds_bind_iff.mpr ⟨_, _, hmode, ?_⟩
  have hne := missing_ne_nil_of_chooseMode hmode
  dsimp only [Scope.names]
  split
  · rename_i hnil
    exact absurd hnil hne
  · have hall := succeeds_attempt (succeeds_askAll hstart hasked)
    exact succeeds_bind_iff.mpr ⟨some (), _, hall, hfinish⟩

end EnvFill.Command
