import EnvFill.Proofs.FollowedLinks
import EnvFill.Proofs.SavesAlone

/-!
# What filling in a folder changes

What was asked for in a folder and how that ended says which places can differ on the disk afterwards: the
file that values were saved in, the template that got their keys, and directories above these.
-/

namespace EnvFill.Command

open Procedure Storage Node EnvFile Fill Project Screen

/-- A folder in which there were questions: the file that was chosen and the place that it stands for, the
keys of the saves that succeeded, and how the questions ended. -/
structure Filling where
  task : FolderTask
  file : String
  target : Location
  saved : List String
  ending : Except Error Unit

namespace Filling

/-- The filling may change the file at `place`: something was saved, and it is the file that was written,
or another one that is the template. -/
def Writes (config : Config) (disk : Disk) (filling : Filling) (place : Location) : Prop :=
  filling.saved ≠ [] ∧ (place = filling.target ∨
    config.syncExample = true ∧ place ≠ filling.target ∧
      disk.resolve (filling.task.path config.exampleFile) = .ok place)

/-- What the filling says is what the questions of a folder did: the keys are those of saves that succeeded,
and it ended with the last of them or with a save that failed. -/
def IsAsked (filling : Filling) : Prop :=
  ∃ found start saves last after, Reaches filling.target found start saves last ∧
    filling.saved = savedKeys saves ∧ Ends filling.target found last filling.ending after

/-- The filling may make a directory at `place`: it leads to a file that may be changed, or to one that
could not be saved. -/
def Makes (config : Config) (disk : Disk) (filling : Filling) (place : Location) : Prop :=
  ∃ file, IsAbove place file ∧
    (filling.Writes config disk file ∨ file = filling.target ∧ IsFailure filling.ending)

end Filling

def Filling.of (task : FolderTask) (plan : Plan) (planned : World) : Filling where
  task := task
  file := plan.file
  target := plan.target
  saved := (outcome plan.ask planned).2.tally.keys
  ending := (outcome plan.ask planned).1

def fillingsIn (config : Config) (task : FolderTask) (world : World) : List Filling :=
  match outcome (plan config task) world with
  | (.ok (some plan), planned) => [.of task plan planned]
  | _ => []

def fillingsOf (config : Config) : List FolderTask → World → List Filling
  | [], _ => []
  | task :: rest, world =>
    fillingsIn config task world ++
      match outcome (fillFolder config task) world with
      | (.ok _, after) => fillingsOf config rest after
      | (.error _, _) => []

def fillings (config : Config) (target : String) (world : World) : List Filling :=
  match outcome (chooseTasks config target) world with
  | (.ok tasks, chosen) => fillingsOf config tasks chosen
  | (.error _, _) => []

section Folder

variable {config : Config} {task : FolderTask} {plan : Plan} {world planned : World}
  {disk : Disk} {filling : Filling} {place : Location}

theorem isAbsolute_path (task : FolderTask) (text : String) : (task.path text).isAbsolute = true := by
  unfold FolderTask.path Pathname.join
  split
  · assumption
  · rfl

/-- Before the first question nothing is saved, and the file has its place. -/
theorem of_succeeds_plan (hplan : Succeeds (Command.plan config task) world (some plan) planned) :
    planned.tally = .start ∧ planned.disk.resolve (task.path plan.file) = .ok plan.target := by
  obtain ⟨_, working, -, -, -, -, hplan⟩ := steps_of_plan hplan
  obtain ⟨aimed, _, _, -, hfile, hresolve, -, -, hmode, -⟩ := steps_of_planFound hplan
  have haimed := (leavesDisk_chooseTarget config task).of_succeeds hfile
  have hdisk := (leavesDisk_planFound config task plan.found).of_succeeds hplan
  exact ⟨(disk_of_talk hmode).2, by rwa [hdisk, ← haimed]⟩

theorem Filling.writes_congr {after : Disk} (hcycles : HasNoLinkCycles disk.top)
    (hlinks : ∀ here target, after.top.get? here = some (.link target) ↔
      disk.top.get? here = some (.link target)) :
    filling.Writes config after place ↔ filling.Writes config disk place := by
  unfold Filling.Writes
  rw [Disk.resolve_congr hcycles (isAbsolute_path _ _) hlinks]

theorem Filling.makes_congr {after : Disk} (hcycles : HasNoLinkCycles disk.top)
    (hlinks : ∀ here target, after.top.get? here = some (.link target) ↔
      disk.top.get? here = some (.link target)) :
    filling.Makes config after place ↔ filling.Makes config disk place :=
  exists_congr fun _ => and_congr_right fun _ =>
    or_congr_left (Filling.writes_congr hcycles hlinks)

theorem changesOnly_syncKeys {target : Location} (hcycles : HasNoLinkCycles world.disk.top) :
    ChangesOnly (IsTemplate config task target world.disk)
      (fun place => ∃ template, IsAbove place template ∧ IsTemplate config task target world.disk template)
      world.disk (outcome (syncKeys config task target) world).2.disk := by
  obtain ⟨-, hsame | ⟨template, htemplate, hdisk⟩⟩ := after_syncKeys config task target world
  · rw [hsame]
    exact .refl _ _ _
  have hresolve := htemplate.2.2
  have hfree := Disk.isLinkFree_of_resolve hcycles (isAbsolute_path _ _) hresolve
  have hchanges := changesOnly_syncTemplate (Disk.isName_of_resolve hresolve) hfree world.tally.keys
  rw [hdisk]
  refine hchanges.mono ?_ ?_
  · rintro place rfl
    exact htemplate
  · exact fun place _ hplace => ⟨template, hplace, htemplate⟩

/-- Where nothing was saved, only a summary follows. -/
theorem disk_finish_of_nil (target : Location) (file : String) (hkeys : world.tally.keys = []) :
    (outcome (finish config task target file) world).2.disk = world.disk := by
  unfold finish
  rw [outcome_bind, succeeds_get_iff.mpr ⟨rfl, rfl⟩]
  dsimp only
  rw [hkeys, if_neg (by simp)]
  exact leavesDisk_summary file world

/-- After the questions, the template may change, if something was saved. -/
theorem changesOnly_finish {target : Location} {file : String}
    (hcycles : HasNoLinkCycles world.disk.top) (hkeys : world.tally.keys ≠ []) :
    ChangesOnly (IsTemplate config task target world.disk)
      (fun place => ∃ template, IsAbove place template ∧ IsTemplate config task target world.disk template)
      world.disk (outcome (finish config task target file) world).2.disk := by
  have hdisk := leavesDisk_checkIgnored task target file world
  unfold finish
  rw [outcome_bind, succeeds_get_iff.mpr ⟨rfl, rfl⟩]
  dsimp only
  rw [if_pos (by simpa using hkeys), outcome_bind]
  rcases hcheck : outcome (checkIgnored task target file) world with ⟨result, checked⟩
  rw [hcheck] at hdisk
  have hsame : world.disk = checked.disk := hdisk.symm
  rw [hsame] at hcycles ⊢
  cases result with
  | error error => exact .refl _ _ _
  | ok _ =>
    dsimp only
    rw [disk_bind_of_leavesDisk fun _ => leavesDisk_summary file]
    exact changesOnly_syncKeys hcycles

/-- The file that was written is left as it is then. -/
theorem shown_finish {target : Location} {file : String} (hcycles : HasNoLinkCycles world.disk.top)
    (hthere : world.disk.shown target ≠ none) :
    (outcome (finish config task target file) world).2.disk.shown target = world.disk.shown target := by
  by_cases hkeys : world.tally.keys = []
  · rw [disk_finish_of_nil target file hkeys]
  by_contra hchanged
  rcases (changesOnly_finish hcycles hkeys).shown target hchanged with ⟨-, hother, -⟩ | ⟨-, hnone, -⟩
  · exact hother rfl
  · exact hthere hnone

theorem Filling.exists_saves (task : FolderTask) (hstart : planned.tally = .start) :
    ∃ saves last, Reaches plan.target plan.found planned saves last ∧
      (Filling.of task plan planned).saved = savedKeys saves ∧
        Ends plan.target plan.found last (outcome plan.ask planned).1 (outcome plan.ask planned).2 := by
  obtain ⟨saves, last, hreaches, hends⟩ := asksAndSaves_ask plan planned planned [] .here
  refine ⟨saves, last, hreaches, ?_, hends⟩
  rw [← hreaches.keys_eq hstart, ← hends.tally_eq]
  rfl

/-- After the questions no more has changed than saves account for. -/
theorem Filling.changesOnly_ask (config : Config) (task : FolderTask) (hstart : planned.tally = .start)
    (hnames : ∀ name ∈ plan.target, IsName name) (hfree : IsLinkFree plan.target planned.disk.top) :
    ChangesOnly (Filling.Writes config planned.disk (.of task plan planned))
      (Filling.Makes config planned.disk (.of task plan planned)) planned.disk
      (outcome plan.ask planned).2.disk := by
  obtain ⟨saves, last, hreaches, hsaved, hends⟩ := Filling.exists_saves task hstart
  have hkeys : saves ≠ [] → (Filling.of task plan planned).saved ≠ [] := by
    rw [hsaved]
    exact mt hreaches.savedKeys_eq_nil_iff.mp
  have hsaves := hreaches.changesOnly hnames hfree
  refine (hsaves.mono ?_ ?_).trans ((hends.changesOnly hnames (hsaves.isLinkFree hfree)).mono ?_ ?_)
  · rintro place ⟨hne, rfl⟩
    exact ⟨hkeys hne, .inl rfl⟩
  · rintro place - ⟨hne, habove⟩
    exact ⟨plan.target, habove, .inl ⟨hkeys hne, .inl rfl⟩⟩
  · exact fun place => False.elim
  · rintro place - ⟨hfailed, habove⟩
    exact ⟨plan.target, habove, .inr ⟨rfl, hfailed⟩⟩

/-- Nor has it when the folder is done. -/
theorem Filling.changesOnly_finish (hcycles : HasNoLinkCycles disk.top)
    (hsaved : filling.saved = world.tally.keys)
    (hasked : ChangesOnly (filling.Writes config disk) (filling.Makes config disk) disk world.disk) :
    ChangesOnly (filling.Writes config disk) (filling.Makes config disk) disk
      (outcome (finish config filling.task filling.target filling.file) world).2.disk := by
  by_cases hkeys : world.tally.keys = []
  · rw [disk_finish_of_nil _ _ hkeys]
    exact hasked
  have hwrites : ∀ place, IsTemplate config filling.task filling.target world.disk place →
      filling.Writes config disk place := by
    rintro place ⟨hsync, hne, hresolve⟩
    rw [Disk.resolve_congr hcycles (isAbsolute_path _ _) hasked.links] at hresolve
    exact ⟨hsaved ▸ hkeys, .inr ⟨hsync, hne, hresolve⟩⟩
  refine hasked.trans ((Command.changesOnly_finish (hcycles.congr hasked.links) hkeys).mono hwrites ?_)
  rintro place - ⟨template, habove, htemplate⟩
  exact ⟨template, habove, .inl (hwrites template htemplate)⟩

/-- However the questions of a plan end, no more has changed than its filling says. -/
theorem Filling.changesOnly_fill (config : Config) (hcycles : HasNoLinkCycles planned.disk.top)
    (hstart : planned.tally = .start)
    (hresolve : planned.disk.resolve (task.path plan.file) = .ok plan.target) :
    ChangesOnly (Filling.Writes config planned.disk (.of task plan planned))
      (Filling.Makes config planned.disk (.of task plan planned)) planned.disk
      (outcome (plan.fill config task) planned).2.disk := by
  have hfree := Disk.isLinkFree_of_resolve hcycles (isAbsolute_path _ _) hresolve
  have hasked := Filling.changesOnly_ask config task hstart (Disk.isName_of_resolve hresolve) hfree
  have hdisk := disk_attempt plan.ask planned
  have htally := tally_attempt plan.ask planned
  unfold Plan.fill
  rw [outcome_bind]
  rcases hattempt : outcome (attempt plan.ask) planned with ⟨result, after⟩
  rw [hattempt] at hdisk htally
  rw [← hdisk] at hasked
  cases result with
  | error error => exact hasked
  | ok _ => exact Filling.changesOnly_finish hcycles (congrArg Tally.keys htally).symm hasked

/-- **One folder.** However its filling ends, no more has changed than it says. -/
theorem changesOnly_fillFolder (config : Config) (task : FolderTask)
    (hcycles : HasNoLinkCycles world.disk.top) :
    ChangesOnly (fun place => ∃ filling ∈ fillingsIn config task world,
        filling.Writes config world.disk place)
      (fun place => ∃ filling ∈ fillingsIn config task world, filling.Makes config world.disk place)
      world.disk (outcome (fillFolder config task) world).2.disk := by
  have hdisk := leavesDisk_plan config task world
  rw [fillFolder_eq, outcome_bind]
  unfold fillingsIn
  rcases hplan : outcome (Command.plan config task) world with ⟨result, planned⟩
  rw [hplan] at hdisk
  have hsame : planned.disk = world.disk := hdisk
  rw [← hsame] at hcycles ⊢
  rcases result with error | _ | plan
  · exact .refl _ _ _
  · exact .refl _ _ _
  · obtain ⟨htally, hresolve⟩ := of_succeeds_plan hplan
    simp only [List.mem_singleton, exists_eq_left]
    exact Filling.changesOnly_fill config hcycles htally hresolve

theorem isAsked_of_mem_fillingsIn (hfilling : filling ∈ fillingsIn config task world) :
    filling.IsAsked := by
  unfold fillingsIn at hfilling
  split at hfilling
  · rename_i plan planned hplan
    obtain rfl := List.mem_singleton.mp hfilling
    obtain ⟨saves, last, hreaches, hsaved, hends⟩ :=
      Filling.exists_saves task (of_succeeds_plan hplan).1
    exact ⟨plan.found, planned, saves, last, _, hreaches, hsaved, hends⟩
  · exact absurd hfilling List.not_mem_nil

theorem resolve_of_mem_fillingsIn (hfilling : filling ∈ fillingsIn config task world) :
    world.disk.resolve (filling.task.path filling.file) = .ok filling.target := by
  unfold fillingsIn at hfilling
  split at hfilling
  · rename_i plan planned hplan
    obtain rfl := List.mem_singleton.mp hfilling
    rw [← (leavesDisk_plan config task).of_succeeds hplan]
    exact (of_succeeds_plan hplan).2
  · exact absurd hfilling List.not_mem_nil

end Folder

end EnvFill.Command
