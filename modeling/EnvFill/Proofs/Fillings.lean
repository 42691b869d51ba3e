import EnvFill.Command.Run
import EnvFill.Proofs.FilledFolder

/-!
# The folders that a run fills in

A run first settles which folders it works on. For each of them it is planned which file is written and
what is asked for; then there are the questions, with a save after each answer, and then the template.
Only the last two touch the disk.
-/

namespace EnvFill.Command

open Procedure Storage EnvFile Fill Project Screen

/-- What is settled for a folder before its questions: the file to write and the place that it stands
for, what was found and what is set, and the variables that are asked for. Without any, settings are
pasted. -/
structure Plan where
  file : String
  target : Location
  found : Found
  existing : Entries
  names : Option (List String)

def Plan.ask (plan : Plan) : Procedure Unit :=
  match plan.names with
  | some names => askAll plan.target plan.found plan.existing names
  | none => askPaste plan.target plan.found plan.existing

def Plan.fill (config : Config) (task : FolderTask) (plan : Plan) : Procedure Nat := do
  let _ ← attempt plan.ask
  finish config task plan.target plan.file

def planFound (config : Config) (task : FolderTask) (found : Found) : Procedure (Option Plan) := do
  let file ← chooseTarget config task
  let target ← lookUp fun disk => followed (disk.resolve (task.path file))
  let existing ← lookUp fun disk => readSettings disk (.ofRoot target)
  let stats := reconcile found existing
  display (scanResult stats)
  modify fun world => { world with tally := .start }
  match ← talk (chooseMode stats) with
  | .exit =>
    display [line "[dim]  Skipped this folder.[/dim]"]
    return none
  | .paste => return some ⟨file, target, found, existing, none⟩
  | .fill scope =>
    match scope.names found existing with
    | [] =>
      display [line "[green]✔ All environment variables are already set![/green]"]
      return none
    | names => return some ⟨file, target, found, existing, some names⟩

def plan (config : Config) (task : FolderTask) : Procedure (Option Plan) := do
  announce task.label
  display [.working (workingText config.deep)]
  let scanned ← attempt <| lookUp fun disk =>
    scan disk (.ofRoot task.folder) config.deep config.extraIgnore config.scanMaxDepth
  match scanned with
  | none => return none
  | some found =>
    if found.isEmpty then
      display (noVariables config.deep)
      return none
    planFound config task found

def carryOut (config : Config) (task : FolderTask) : Option Plan → Procedure Nat
  | none => return 0
  | some plan => plan.fill config task

theorem fillFound_eq (config : Config) (task : FolderTask) (found : Found) :
    fillFound config task found = planFound config task found >>= carryOut config task := by
  unfold fillFound planFound
  simp only [bind_assoc]
  refine bind_congr fun file => bind_congr fun target => bind_congr fun existing =>
    bind_congr fun _ => bind_congr fun _ => bind_congr fun mode => ?_
  cases mode with
  | exit => rw [bind_assoc]; rfl
  | paste => rfl
  | fill scope =>
    dsimp only
    cases scope.names found existing with
    | nil => rw [bind_assoc]; rfl
    | cons name names => rfl

/-- **Filling in a folder is planning and carrying out.** -/
theorem fillFolder_eq (config : Config) (task : FolderTask) :
    fillFolder config task = plan config task >>= carryOut config task := by
  unfold fillFolder plan
  simp only [bind_assoc]
  refine bind_congr fun _ => bind_congr fun _ => bind_congr fun scanned => ?_
  cases scanned with
  | none => rfl
  | some found =>
    dsimp only
    split
    · rw [bind_assoc]
      rfl
    · exact fillFound_eq config task found

section Plan

variable {config : Config} {task : FolderTask} {plan : Plan} {found : Found} {existing : Entries}
  {scope : Scope} {world planned : World}

/-- What was settled for a folder with variables was settled step by step: the file, what is set in it, and
then the mode. -/
theorem steps_of_planFound (hplan : Succeeds (planFound config task found) world (some plan) planned) :
    ∃ aimed shown mode, plan.found = found ∧
      Succeeds (chooseTarget config task) world plan.file aimed ∧
        aimed.disk.resolve (task.path plan.file) = .ok plan.target ∧
          readSettings aimed.disk (.ofRoot plan.target) = .ok plan.existing ∧
            Succeeds (display (scanResult (reconcile found plan.existing))) aimed () shown ∧
              Succeeds (talk (chooseMode (reconcile found plan.existing)))
                { shown with tally := .start } mode planned ∧
                ∀ names, plan.names = some names →
                  ∃ scope, mode = .fill scope ∧ names = scope.names found plan.existing := by
  simp only [planFound, succeeds_bind_iff, succeeds_lookUp_iff, succeeds_modify_iff] at hplan
  obtain ⟨file, _, hfile, target, _, ⟨hresolve, rfl⟩, existing, chosen, ⟨hexisting, rfl⟩, _, shown, hshown,
    _, _, rfl, mode, asked, hmode, hplan⟩ := hplan
  have hplace := followed_eq_ok_iff.mp hresolve
  cases mode with
  | exit =>
    obtain ⟨_, _, -, hnone⟩ := succeeds_bind_iff.mp hplan
    cases (succeeds_pure_iff.mp hnone).1
  | paste =>
    obtain ⟨heq, rfl⟩ := succeeds_pure_iff.mp hplan
    obtain rfl := Option.some.inj heq
    refine ⟨_, _, .paste, rfl, hfile, hplace, hexisting, hshown, hmode, fun names hnames => ?_⟩
    cases hnames
  | fill scope =>
    dsimp only at hplan
    split at hplan
    · obtain ⟨_, _, -, hnone⟩ := succeeds_bind_iff.mp hplan
      cases (succeeds_pure_iff.mp hnone).1
    · obtain ⟨heq, rfl⟩ := succeeds_pure_iff.mp hplan
      obtain rfl := Option.some.inj heq
      exact ⟨_, _, .fill scope, rfl, hfile, hplace, hexisting, hshown, hmode, fun names hnames =>
        ⟨scope, rfl, (Option.some.inj hnames).symm⟩⟩

/-- Where something is asked for, variables were found. -/
theorem steps_of_plan (hplan : Succeeds (Command.plan config task) world (some plan) planned) :
    ∃ announced working, Succeeds (announce task.label) world () announced ∧
      Succeeds (display [.working (workingText config.deep)]) announced () working ∧
        scan working.disk (.ofRoot task.folder) config.deep config.extraIgnore config.scanMaxDepth =
            .ok plan.found ∧
          plan.found.isEmpty = false ∧
            Succeeds (planFound config task plan.found) working (some plan) planned := by
  unfold Command.plan at hplan
  obtain ⟨_, announced, hannounce, hrest⟩ := succeeds_bind_iff.mp hplan
  obtain ⟨_, working, hworking, hrest⟩ := succeeds_bind_iff.mp hrest
  obtain ⟨scanned, later, hattempt, hsettled⟩ := succeeds_bind_iff.mp hrest
  cases scanned with
  | none => cases (succeeds_pure_iff.mp hsettled).1
  | some found =>
    dsimp only at hsettled
    split at hsettled
    · obtain ⟨_, _, -, hnone⟩ := succeeds_bind_iff.mp hsettled
      cases (succeeds_pure_iff.mp hnone).1
    · rename_i hfound
      obtain ⟨hscan, rfl⟩ := succeeds_lookUp_iff.mp (of_succeeds_attempt hattempt)
      obtain ⟨_, _, _, rfl, -⟩ := steps_of_planFound hsettled
      exact ⟨announced, _, hannounce, hworking, hscan, Bool.eq_false_iff.mpr hfound, hsettled⟩

/-- Where all variables are offered, some are set. So those without a value are asked for in their own mode. -/
theorem eq_missing_of_names (havailable : Mode.fill scope ∈ Mode.available (reconcile found existing))
    (hnames : missing found existing = scope.names found existing) : scope = .missing := by
  cases scope with
  | missing => rfl
  | all =>
    have hnone : found.names.filter (isSet existing) = [] := by
      refine List.filter_eq_nil_iff.mpr fun name hname hset => ?_
      have hmissing : name ∈ missing found existing := hnames ▸ hname
      simp [missing, hset] at hmissing
    have hset : (reconcile found existing).alreadySet = 0 := by
      simp [reconcile, hnone]
    unfold Mode.available at havailable
    rw [hset] at havailable
    simp at havailable

theorem FillsMissing.of_plan {last : Session} {started answered after : World} {answers : List Response}
    {saved : Nat} (hplan : Succeeds (Command.plan config task) world (some plan) planned)
    (hnames : plan.names = some (missing plan.found plan.existing))
    (hstart : Succeeds (talk startSession) planned () started)
    (hasked : Asks (missing plan.found plan.existing) plan.found plan.target (.start plan.existing) started
      answers last answered)
    (hwritten : TemplateIsWritten config task plan.target answered)
    (hfinish : Succeeds (finish config task plan.target plan.file) answered saved after) :
    FillsMissing config task plan.file world answers saved after := by
  obtain ⟨announced, working, hannounce, hworking, hscan, hfound, hsettled⟩ := steps_of_plan hplan
  obtain ⟨aimed, shown, mode, -, hfile, htarget, hexisting, hshown, hmode, hscope⟩ :=
    steps_of_planFound hsettled
  obtain ⟨scope, rfl, hsame⟩ := hscope _ hnames
  obtain rfl := eq_missing_of_names (mem_available_of_chooseMode hmode (by simp)) hsame
  exact .intro hannounce hworking hscan hfound hfile htarget hexisting hshown hmode hstart hasked hwritten
    hfinish

/-- **A run in which the variables without a value are asked for, and in which no write fails, is made up of the
steps of one.** -/
theorem exists_fillsMissing_of_succeeds {answered after : World} {saved : Nat}
    (hplan : Succeeds (Command.plan config task) world (some plan) planned)
    (hnames : plan.names = some (missing plan.found plan.existing))
    (hask : Succeeds plan.ask planned () answered)
    (hwritten : TemplateIsWritten config task plan.target answered)
    (hfill : Succeeds (fillFolder config task) world saved after) :
    ∃ answers, FillsMissing config task plan.file world answers saved after := by
  have hfinish : Succeeds (finish config task plan.target plan.file) answered saved after := by
    rw [fillFolder_eq] at hfill
    obtain ⟨_, _, hplanned, hcarry⟩ := succeeds_bind_iff.mp hfill
    obtain ⟨rfl, rfl⟩ := hplan.unique hplanned
    obtain ⟨_, _, hasked, hfinish⟩ := succeeds_bind_iff.mp hcarry
    obtain ⟨-, rfl⟩ := (succeeds_attempt hask).unique hasked
    exact hfinish
  unfold Plan.ask at hask
  rw [hnames] at hask
  obtain ⟨_, started, hstart, hrest⟩ := succeeds_bind_iff.mp hask
  obtain ⟨_, _, hget, hrounds⟩ := succeeds_bind_iff.mp hrest
  obtain ⟨rfl, rfl⟩ := succeeds_get_iff.mp hget
  obtain ⟨last, _, hrun, hpure⟩ := succeeds_bind_iff.mp hrounds
  obtain ⟨-, rfl⟩ := succeeds_pure_iff.mp hpure
  obtain ⟨answers, hasked⟩ := (succeeds_run_iff_asks (Nat.lt_succ_self _)).mp hrun
  exact ⟨answers, .of_plan hplan hnames hstart hasked hwritten hfinish⟩

end Plan

/-- The folders that were chosen, each with the label that it is announced with. -/
def tasksOf (root : Location) (folders : List Folder) : Option FolderChoice → List FolderTask
  | none => [⟨root, none, root⟩]
  | some (.one folder) =>
    [⟨folder.location, if folder.isRoot then none else some folder.path, root⟩]
  | some .all =>
    folders.zipIdx.map fun (folder, index) =>
      ⟨folder.location, some s!"{folder.label}  [{index + 1}/{folders.length}]", root⟩

def chooseTasks (config : Config) (target : String) : Procedure (List FolderTask) := do
  match ← chooseRoot target with
  | none => return []
  | some root =>
    display banner
    match ← lookUp fun disk => discover disk (.ofRoot root) config.maxDepth with
    | [] =>
      display [line "[yellow]⚠ No env files found in any folder[/yellow]"]
      return [⟨root, none, root⟩]
    | folders =>
      let ending := plural folders.length
      display [line s!"[green]✔ Found env files in {folders.length} folder{ending}[/green]"]
      return tasksOf root folders (← talk (chooseFolder folders))

def fillTasks (config : Config) : List FolderTask → Procedure Nat
  | [] => return 0
  | task :: rest => do
    let saved ← fillFolder config task
    let later ← fillTasks config rest
    return saved + later

theorem fillAll_eq (config : Config) (root : Location) (count : Nat) (folders : List (Folder × Nat)) :
    fillAll config root count folders =
      fillTasks config (folders.map fun (folder, index) =>
        ⟨folder.location, some s!"{folder.label}  [{index + 1}/{count}]", root⟩) := by
  induction folders with
  | nil => rfl
  | cons folder rest ih =>
    rw [fillAll, List.map_cons, fillTasks]
    refine bind_congr fun saved => ?_
    rw [ih]

section Parts

variable (config : Config) (task : FolderTask)

theorem leavesDisk_planFound (found : Found) : LeavesDisk (planFound config task found) := by
  refine (leavesDisk_chooseTarget config task).bind fun file => ?_
  refine (leavesDisk_lookUp _).bind fun target => (leavesDisk_lookUp _).bind fun existing => ?_
  refine (leavesDisk_display _).bind fun _ => ?_
  have htally : LeavesDisk (modify fun world => { world with tally := .start }) := fun _ => rfl
  refine htally.bind fun _ => (leavesDisk_talk _).bind fun mode => ?_
  cases mode with
  | exit => exact (leavesDisk_display _).bind fun _ => leavesDisk_pure _
  | paste => exact leavesDisk_pure _
  | fill scope =>
    dsimp only
    split
    · exact (leavesDisk_display _).bind fun _ => leavesDisk_pure _
    · exact leavesDisk_pure _

theorem leavesDisk_plan : LeavesDisk (plan config task) := by
  refine (leavesDisk_announce task.label).bind fun _ => (leavesDisk_display _).bind fun _ => ?_
  refine (leavesDisk_lookUp _).attempt.bind fun scanned => ?_
  cases scanned with
  | none => exact leavesDisk_pure _
  | some found =>
    dsimp only
    split
    · exact (leavesDisk_display _).bind fun _ => leavesDisk_pure _
    · exact leavesDisk_planFound config task found

theorem leavesDisk_chooseRoot (target : String) : LeavesDisk (chooseRoot target) := by
  refine (leavesDisk_lookUp _).bind fun root => (leavesDisk_lookUp _).bind fun isThere => ?_
  split
  · exact (leavesDisk_display _).bind fun _ => leavesDisk_pure _
  refine (leavesDisk_lookUp _).bind fun isDir => ?_
  split
  · exact (leavesDisk_display _).bind fun _ => leavesDisk_pure _
  · exact leavesDisk_pure _

theorem leavesDisk_chooseTasks (target : String) : LeavesDisk (chooseTasks config target) := by
  refine (leavesDisk_chooseRoot target).bind fun root => ?_
  cases root with
  | none => exact leavesDisk_pure _
  | some root =>
    refine (leavesDisk_display _).bind fun _ => (leavesDisk_lookUp _).bind fun folders => ?_
    cases folders with
    | nil => exact (leavesDisk_display _).bind fun _ => leavesDisk_pure _
    | cons folder rest =>
      refine (leavesDisk_display _).bind fun _ => (leavesDisk_talk _).bind fun choice => ?_
      exact leavesDisk_pure _

variable {config task} {found : Found} {existing : Entries} {file entered : String}
  {rest names : List String} {target : Location} {scope : Scope}

/-- Where the file that is to be written can be read, and the first line chooses variables that are there,
these are asked for. -/
theorem exists_succeeds_planFound {world : World} (hfile : config.envFile.filter (!·.isEmpty) = some file)
    (hresolve : world.disk.resolve (task.path file) = .ok target)
    (hexisting : readSettings world.disk (.ofRoot target) = .ok existing)
    (hinput : world.terminal.input = entered :: rest)
    (hmode : Mode.ofLine? (reconcile found existing) entered = some (.fill scope))
    (hnames : scope.names found existing = names) (hne : names ≠ []) :
    ∃ planned, Succeeds (planFound config task found) world
        (some ⟨file, target, found, existing, some names⟩) planned ∧
      planned.disk = world.disk ∧ planned.tally = .start ∧ planned.terminal.input = rest := by
  obtain ⟨shown, hshown, hdisk₁, -, hinput₁⟩ :=
    exists_succeeds_display world (scanResult (reconcile found existing))
  obtain ⟨chosen, hchosen, hdisk₂, htally, hinput₂⟩ : ∃ after,
      Succeeds (talk (chooseMode (reconcile found existing))) { shown with tally := .start }
        (.fill scope) after ∧ after.disk = shown.disk ∧ after.tally = .start ∧
          after.terminal.input = rest :=
    exists_succeeds_talk (exists_succeeds_chooseMode (hinput₁.trans hinput) hmode)
  refine ⟨chosen, ?_, hdisk₂.trans hdisk₁, htally, hinput₂⟩
  unfold planFound
  refine succeeds_bind_iff.mpr ⟨file, world, ?_, ?_⟩
  · unfold chooseTarget
    rw [hfile]
    exact succeeds_pure_iff.mpr ⟨rfl, rfl⟩
  refine succeeds_bind_iff.mpr ⟨target, world,
    succeeds_lookUp_iff.mpr ⟨followed_eq_ok_iff.mpr hresolve, rfl⟩, ?_⟩
  refine succeeds_bind_iff.mpr ⟨existing, world, succeeds_lookUp_iff.mpr ⟨hexisting, rfl⟩, ?_⟩
  refine succeeds_bind_iff.mpr ⟨(), shown, hshown, ?_⟩
  refine succeeds_bind_iff.mpr ⟨(), _, succeeds_modify_iff.mpr rfl, ?_⟩
  refine succeeds_bind_iff.mpr ⟨.fill scope, chosen, hchosen, ?_⟩
  subst hnames
  dsimp only
  split
  · rename_i hnil
    exact absurd hnil hne
  · exact succeeds_pure_iff.mpr ⟨rfl, rfl⟩

/-- What a scan finds is planned for. -/
theorem exists_succeeds_plan {world : World} (hlabel : task.label = none)
    (hscan : scan world.disk (.ofRoot task.folder) config.deep config.extraIgnore config.scanMaxDepth =
      .ok found)
    (hfound : found.isEmpty = false) (hfile : config.envFile.filter (!·.isEmpty) = some file)
    (hresolve : world.disk.resolve (task.path file) = .ok target)
    (hexisting : readSettings world.disk (.ofRoot target) = .ok existing)
    (hinput : world.terminal.input = entered :: rest)
    (hmode : Mode.ofLine? (reconcile found existing) entered = some (.fill scope))
    (hnames : scope.names found existing = names) (hne : names ≠ []) :
    ∃ planned, Succeeds (plan config task) world (some ⟨file, target, found, existing, some names⟩) planned ∧
      planned.disk = world.disk ∧ planned.tally = .start ∧ planned.terminal.input = rest := by
  obtain ⟨working, hworking, hdisk, -, hasked⟩ :=
    exists_succeeds_display world [.working (workingText config.deep)]
  rw [← hdisk] at hscan hresolve hexisting ⊢
  obtain ⟨planned, hplanned, hafter⟩ :=
    exists_succeeds_planFound hfile hresolve hexisting (hasked.trans hinput) hmode hnames hne
  refine ⟨planned, ?_, hafter⟩
  unfold plan announce
  rw [hlabel]
  refine succeeds_bind_iff.mpr ⟨(), world, succeeds_pure_iff.mpr ⟨rfl, rfl⟩, ?_⟩
  refine succeeds_bind_iff.mpr ⟨(), working, hworking, ?_⟩
  refine succeeds_bind_iff.mpr ⟨some found, working, succeeds_attempt ?_, ?_⟩
  · exact succeeds_lookUp_iff.mpr ⟨hscan, rfl⟩
  dsimp only
  rw [hfound, if_neg Bool.false_ne_true]
  exact hplanned

end Parts

/-- One folder alone is filled in as the only one of several. -/
theorem disk_fillTasks_singleton (config : Config) (task : FolderTask) (world : World) :
    (outcome (fillTasks config [task]) world).2.disk =
      (outcome (fillFolder config task) world).2.disk :=
  disk_bind_of_leavesDisk fun _ => (leavesDisk_pure 0).bind fun _ => leavesDisk_pure _

theorem disk_fillChosen (config : Config) (root : Location) (folders : List Folder) (world : World) :
    (outcome (fillChosen config root folders) world).2.disk =
      (outcome (do
        let ending := plural folders.length
        display [line s!"[green]✔ Found env files in {folders.length} folder{ending}[/green]"]
        let choice ← talk (chooseFolder folders)
        fillTasks config (tasksOf root folders choice)) world).2.disk := by
  unfold fillChosen
  dsimp only
  refine disk_bind_congr fun _ shown => ?_
  refine disk_bind_congr fun choice chosen => ?_
  cases choice with
  | none =>
    rw [tasksOf, disk_fillTasks_singleton]
    exact disk_bind_of_leavesDisk fun saved => leavesDisk_pure _
  | some choice =>
    cases choice with
    | one folder =>
      rw [tasksOf, disk_fillTasks_singleton]
      exact disk_bind_of_leavesDisk fun saved => leavesDisk_pure _
    | all =>
      rw [tasksOf, ← fillAll_eq]
      refine disk_bind_of_leavesDisk fun total => ?_
      split
      · exact leavesDisk_display _
      · exact leavesDisk_pure _

/-- **What a run does to the disk** it does while it fills in its folders. -/
theorem disk_run (config : Config) (target : String) (world : World) :
    (outcome (run config target) world).2.disk =
      (outcome (chooseTasks config target >>= fillTasks config) world).2.disk := by
  unfold run chooseTasks
  rw [bind_assoc]
  refine disk_bind_congr fun root chosen => ?_
  cases root with
  | none => rfl
  | some root =>
    dsimp only
    rw [bind_assoc]
    refine disk_bind_congr fun _ shown => ?_
    rw [bind_assoc]
    refine disk_bind_congr fun folders found => ?_
    cases folders with
    | nil =>
      dsimp only
      rw [bind_assoc]
      refine disk_bind_congr fun _ told => ?_
      rw [pure_bind, disk_fillTasks_singleton]
      exact disk_bind_of_leavesDisk fun saved => leavesDisk_pure _
    | cons folder rest =>
      dsimp only
      rw [disk_bind_of_leavesDisk fun _ => leavesDisk_pure _, disk_fillChosen]
      rw [bind_assoc]
      simp only [bind_assoc, pure_bind]

end EnvFill.Command
