import EnvFill.Proofs.ClosedStyles
import EnvFill.Proofs.IgnoreFaults
import EnvFill.Proofs.SavedCount

/-!
# Folders that are finished after saves

When something was saved, the ignore file is looked at before the template gets the new keys and the summary
is shown. An ignore file that cannot be read ends the run there: the saves stay, the template does not get
their keys, and nothing is shown. Else the run goes on, and only a template that cannot be looked at ends it.
-/

namespace EnvFill.Command

open Procedure Storage EnvFile Fill Ignore Project Screen Text

variable {config : Config} {task : FolderTask} {file : String} {target : Location} {world after : World}
  {keys : List String} {disk : Disk} {bytes : List UInt8}

/-- An error that ends a run while keys are added to the template: the template has no place, or what goes
wrong with it is not told of. -/
inductive SyncStops (config : Config) (task : FolderTask) (target : Location) (disk : Disk)
    (keys : List String) : Error → Prop where
  | place {cause : DiskError} (hresolve : disk.resolve (task.path config.exampleFile) = .error cause) :
      SyncStops config task target disk keys (.notFollowed cause)
  | write {template : Location} {error : Error} {later : Disk}
      (hresolve : disk.resolve (task.path config.exampleFile) = .ok template)
      (hsync : config.syncExample = true) (hne : template ≠ target)
      (hfails : Fails (syncTemplate (.ofRoot template) keys) disk error later)
      (hreported : error.isReported = false) : SyncStops config task target disk keys error

/-- If keys are to be added to another file than the one that was written, this was tried: the disk is as it
leaves it. -/
def IsSynced (config : Config) (task : FolderTask) (target : Location) (disk : Disk) (keys : List String)
    (later : Disk) : Prop :=
  ∃ template, disk.resolve (task.path config.exampleFile) = .ok template ∧
    later = if config.syncExample && template ≠ target then
      (outcome (syncTemplate (.ofRoot template) keys) disk).2 else disk

theorem syncStops_iff {template : Location} {error : Error}
    (hresolve : disk.resolve (task.path config.exampleFile) = .ok template) :
    SyncStops config task target disk keys error ↔
      (config.syncExample && template ≠ target) = true ∧ error.isReported = false ∧
        ∃ later, Fails (syncTemplate (.ofRoot template) keys) disk error later := by
  rw [Bool.and_eq_true, decide_eq_true_eq]
  constructor
  · rintro (hplace | ⟨hplace, hsync, hne, hfails, hreported⟩)
    · rw [hresolve] at hplace
      cases hplace
    · obtain rfl := Except.ok.inj (hresolve.symm.trans hplace)
      exact ⟨⟨hsync, hne⟩, hreported, _, hfails⟩
  · rintro ⟨⟨hsync, hne⟩, hreported, later, hfails⟩
    exact .write hresolve hsync hne hfails hreported

/-- **Adding keys** stops the run with an error, or it was tried. -/
theorem syncKeys_stops_or_succeeds (config : Config) (task : FolderTask) (target : Location) (world : World) :
    (∃ error after, SyncStops config task target world.disk world.tally.keys error ∧
        Fails (syncKeys config task target) world error after) ∨
      (∀ error, ¬SyncStops config task target world.disk world.tally.keys error) ∧
        ∃ after, Succeeds (syncKeys config task target) world () after ∧
          IsSynced config task target world.disk world.tally.keys after.disk := by
  unfold Fails Succeeds syncKeys
  rw [outcome_bind, outcome_lookUp]
  cases hresolve : world.disk.resolve (task.path config.exampleFile) with
  | error cause => exact .inl ⟨_, world, .place hresolve, rfl⟩
  | ok template =>
    simp only [syncStops_iff hresolve]
    dsimp only [followed, Except.mapError]
    split
    · rename_i hon
      rw [outcome_bind, succeeds_get_iff.mpr ⟨rfl, rfl⟩]
      dsimp only
      rw [outcome_bind, outcome_attempt, outcome_bind, outcome_change]
      rcases hsync : outcome (syncTemplate (.ofRoot template) world.tally.keys) world.disk with
        ⟨result, later⟩
      have hsynced : IsSynced config task target world.disk world.tally.keys later :=
        ⟨template, hresolve, by rw [if_pos hon, hsync]⟩
      cases result with
      | ok count =>
        refine .inr ⟨fun error hstops => ?_, _, rfl, hsynced⟩
        obtain ⟨-, -, other, hfails⟩ := hstops
        cases hsync.symm.trans hfails
      | error error =>
        dsimp only
        by_cases hreported : error.isReported = true
        · rw [if_pos hreported]
          refine .inr ⟨fun other hstops => ?_, _, rfl, hsynced⟩
          obtain ⟨-, hnot, _, hfails⟩ := hstops
          cases hsync.symm.trans hfails
          rw [hreported] at hnot
          cases hnot
        · rw [if_neg hreported]
          exact .inl ⟨error, _, ⟨hon, by simpa using hreported, later, hsync⟩, rfl⟩
    · rename_i hoff
      exact .inr ⟨fun error hstops => hoff hstops.1, world, rfl, template, hresolve, (if_neg hoff).symm⟩

theorem fails_checkIgnored {error : Error}
    (hfails : isIgnored? world.disk (.ofRoot task.project) (.ofRoot target) = .error error) :
    Fails (checkIgnored task target file) world error world := by
  unfold Fails checkIgnored
  rw [outcome_bind, outcome_lookUp, hfails]

theorem isIgnored?_eq_error_iff {path : Pathname} {error : Error}
    (hbytes : disk.bytes? ((Pathname.ofRoot task.project).join (.ofString ".gitignore")) = .ok (some bytes)) :
    isIgnored? disk (.ofRoot task.project) path = .error error ↔ IgnoreFileFails bytes error := by
  rw [isIgnored?_eq_of_bytes hbytes, except_bind_eq_error_iff, ← ignorePatterns_eq_error_iff]
  refine or_iff_left ?_
  rintro ⟨_, -, ⟨⟩⟩

/-- **What follows saves.** An ignore file that cannot be read ends it at once. Else it ends as the template
lets it. -/
theorem finish_stops_or_succeeds (hkeys : world.tally.keys ≠ [])
    (hbytes : world.disk.bytes? ((Pathname.ofRoot task.project).join (.ofString ".gitignore")) =
      .ok (some bytes)) :
    (∃ error, IgnoreFileFails bytes error ∧ Fails (finish config task target file) world error world) ∨
      (∀ error, ¬IgnoreFileFails bytes error) ∧
        ((∃ error after, SyncStops config task target world.disk world.tally.keys error ∧
            Fails (finish config task target file) world error after) ∨
          (∀ error, ¬SyncStops config task target world.disk world.tally.keys error) ∧
            ∃ count after, Succeeds (finish config task target file) world count after ∧
              IsSynced config task target world.disk world.tally.keys after.disk) := by
  have hignored : ∀ error, isIgnored? world.disk (.ofRoot task.project) (.ofRoot target) = .error error ↔
      IgnoreFileFails bytes error := fun error => isIgnored?_eq_error_iff hbytes
  have hget : Succeeds (get : Procedure World) world world world := succeeds_get_iff.mpr ⟨rfl, rfl⟩
  have hsome : (!world.tally.keys.isEmpty) = true := by simpa using hkeys
  cases hcheck : isIgnored? world.disk (.ofRoot task.project) (.ofRoot target) with
  | error error =>
    refine .inl ⟨error, (hignored error).mp hcheck, fails_bind_iff.mpr (.inr ⟨world, world, hget, ?_⟩)⟩
    rw [if_pos hsome]
    exact fails_bind_iff.mpr (.inl (fails_checkIgnored hcheck))
  | ok ignored =>
    refine .inr ⟨fun error hfails => ?_, ?_⟩
    · cases hcheck.symm.trans ((hignored error).mpr hfails)
    obtain ⟨checked, hchecked⟩ := exists_succeeds_checkIgnored file hcheck
    obtain ⟨hdisk, htally⟩ := disk_of_checkIgnored hchecked
    have hsync := syncKeys_stops_or_succeeds config task target checked
    rw [hdisk, htally] at hsync
    rcases hsync with ⟨error, after, hstops, hfails⟩ | ⟨hgoesOn, synced, hsynced, hdone⟩
    · refine .inl ⟨error, after, hstops, fails_bind_iff.mpr (.inr ⟨world, world, hget, ?_⟩)⟩
      rw [if_pos hsome]
      exact fails_bind_iff.mpr (.inr ⟨(), checked, hchecked, fails_bind_iff.mpr (.inl hfails)⟩)
    · obtain ⟨after, hclose⟩ := exists_succeeds_summary synced file
      rw [← (leavesDisk_summary file).of_succeeds hclose] at hdone
      refine .inr ⟨hgoesOn, synced.tally.saved, after,
        succeeds_bind_iff.mpr ⟨world, world, hget, ?_⟩, hdone⟩
      rw [if_pos hsome]
      exact succeeds_bind_iff.mpr ⟨(), checked, hchecked,
        succeeds_bind_iff.mpr ⟨(), synced, hsynced, hclose⟩⟩

/-- What is shown from one state to the other can be shown. -/
def Shows (renders : String → Prop) (before after : World) : Prop :=
  ∃ events, after.terminal.events = before.terminal.events ++ events ∧ ∀ event ∈ events, event.Renders renders

/-- Nothing that is shown with other text after saves holds a tag: the name of the file, that of the template,
and what is said of a template that cannot be written. -/
structure NamesNoTags (config : Config) (task : FolderTask) (file : String) (disk : Disk) (keys : List String) :
    Prop where
  file : ¬HasTag file.toList
  template : ¬HasTag config.exampleFile.toList
  error : ∀ template error later, disk.resolve (task.path config.exampleFile) = .ok template →
    Fails (syncTemplate (.ofRoot template) keys) disk error later → ¬HasTag error.message.toList

section Shown

variable {renders : String → Prop} {before middle : World} {events : List Event}

theorem Shows.refl (renders : String → Prop) (world : World) : Shows renders world world :=
  ⟨[], (List.append_nil _).symm, List.forall_mem_nil _⟩

theorem Shows.trans (hfirst : Shows renders before middle) (hsecond : Shows renders middle after) :
    Shows renders before after := by
  obtain ⟨events, hmiddle, hevents⟩ := hfirst
  obtain ⟨later, hafter, hlater⟩ := hsecond
  refine ⟨events ++ later, ?_, List.forall_mem_append.mpr ⟨hevents, hlater⟩⟩
  rw [hafter, hmiddle, List.append_assoc]

theorem shows_of_display {a : Unit} (hevents : ∀ event ∈ events, event.Renders renders)
    (hdisplay : Succeeds (display events) world a after) : Shows renders world after := by
  rw [succeeds_display_iff.mp hdisplay]
  exact ⟨events, rfl, hevents⟩

/-- What is shown of an action that may fail, if its error can be shown. -/
theorem shows_of_attempt {α : Type} {action : Procedure α} {result : Option α}
    (hok : ∀ a later, Succeeds action world a later → Shows renders world later)
    (herror : ∀ error later, Fails action world error later →
      Shows renders world later ∧ (errorLine error).Renders renders)
    (hattempt : Succeeds (attempt action) world result after) : Shows renders world after := by
  unfold Succeeds at hattempt
  rw [outcome_attempt] at hattempt
  rcases haction : outcome action world with ⟨ended, later⟩
  rw [haction] at hattempt
  cases ended with
  | ok a =>
    obtain ⟨-, rfl⟩ := Prod.mk.inj hattempt
    exact hok a _ haction
  | error error =>
    obtain ⟨hshows, hrenders⟩ := herror error later haction
    dsimp only at hattempt
    split at hattempt
    · obtain ⟨-, rfl⟩ := Prod.mk.inj hattempt
      exact hshows.trans ⟨_, rfl, List.forall_mem_singleton.mpr hrenders⟩
    · cases hattempt

variable (hrenders : ∀ markup, closesStyles markup = true → renders markup)

include hrenders

theorem shows_of_checkIgnored (hfile : ¬HasTag file.toList)
    (hcheck : Succeeds (checkIgnored task target file) world () after) : Shows renders world after := by
  unfold checkIgnored at hcheck
  obtain ⟨_, _, hlook, hwarn⟩ := succeeds_bind_iff.mp hcheck
  obtain ⟨-, rfl⟩ := succeeds_lookUp_iff.mp hlook
  split at hwarn
  · exact shows_of_display (renders_notIgnoredWarning hrenders hfile) hwarn
  · obtain ⟨-, rfl⟩ := succeeds_pure_iff.mp hwarn
    exact .refl _ _

theorem shows_of_syncKeys (hnames : NamesNoTags config task file world.disk world.tally.keys)
    (hsync : Succeeds (syncKeys config task target) world () after) : Shows renders world after := by
  unfold syncKeys at hsync
  obtain ⟨template, _, hlook, hrest⟩ := succeeds_bind_iff.mp hsync
  obtain ⟨hfollowed, rfl⟩ := succeeds_lookUp_iff.mp hlook
  have hresolve := followed_eq_ok_iff.mp hfollowed
  split at hrest
  · obtain ⟨_, _, hget, hkeys⟩ := succeeds_bind_iff.mp hrest
    obtain ⟨rfl, rfl⟩ := succeeds_get_iff.mp hget
    obtain ⟨_, synced, hattempt, hdone⟩ := succeeds_bind_iff.mp hkeys
    obtain ⟨-, rfl⟩ := succeeds_pure_iff.mp hdone
    refine shows_of_attempt (fun _ later hok => ?_) (fun error later hfails => ?_) hattempt
    · obtain ⟨count, _, hchange, hdisplay⟩ := succeeds_bind_iff.mp hok
      obtain ⟨disk, -, rfl⟩ := succeeds_change_iff.mp hchange
      exact (shows_of_display (renders_syncedLine hrenders hnames.template count) hdisplay :)
    · obtain hchange | ⟨_, _, -, hdisplay⟩ := fails_bind_iff.mp hfails
      · obtain ⟨disk, hwrite, rfl⟩ := fails_change_iff.mp hchange
        exact ⟨.refl _ _, renders_errorLine hrenders (hnames.error template error disk hresolve hwrite)⟩
      · exact absurd hdisplay not_fails_display
  · obtain ⟨-, rfl⟩ := succeeds_pure_iff.mp hrest
    exact .refl _ _

theorem shows_of_summary {saved : Nat} (hfile : ¬HasTag file.toList)
    (hsummary : Succeeds (do
      let saved := (← get).tally.saved
      display (summary saved file)
      return saved : Procedure Nat) world saved after) : Shows renders world after := by
  obtain ⟨_, _, hget, hrest⟩ := succeeds_bind_iff.mp hsummary
  obtain ⟨rfl, rfl⟩ := succeeds_get_iff.mp hget
  obtain ⟨_, _, hdisplay, hdone⟩ := succeeds_bind_iff.mp hrest
  obtain ⟨-, rfl⟩ := succeeds_pure_iff.mp hdone
  exact shows_of_display (renders_summary hrenders hfile _) hdisplay

/-- **Names without tags can be shown** in what follows the questions. -/
theorem shows_of_finish {count : Nat} (hnames : NamesNoTags config task file world.disk world.tally.keys)
    (hfinish : Succeeds (finish config task target file) world count after) : Shows renders world after := by
  unfold finish at hfinish
  obtain ⟨_, _, hget, hkept⟩ := succeeds_bind_iff.mp hfinish
  obtain ⟨rfl, rfl⟩ := succeeds_get_iff.mp hget
  split at hkept
  · obtain ⟨_, checked, hcheck, hrest⟩ := succeeds_bind_iff.mp hkept
    obtain ⟨_, synced, hsync, hclose⟩ := succeeds_bind_iff.mp hrest
    obtain ⟨hdisk, htally⟩ := disk_of_checkIgnored hcheck
    rw [← hdisk, ← htally] at hnames
    exact (shows_of_checkIgnored hrenders hnames.file hcheck).trans
      ((shows_of_syncKeys hrenders hnames hsync).trans (shows_of_summary hrenders hnames.file hclose))
  · exact shows_of_summary hrenders hnames.file hkept

end Shown

/-- After the questions a folder ends as what follows them does. -/
theorem outcome_fillFolder {plan : Plan} {planned asked : World} {result : Option Unit}
    (hplan : Succeeds (Command.plan config task) world (some plan) planned)
    (hasked : Succeeds (attempt plan.ask) planned result asked) :
    outcome (fillFolder config task) world =
      outcome (finish config task plan.target plan.file) asked := by
  rw [fillFolder_eq, outcome_bind, hplan]
  dsimp only [carryOut, Plan.fill]
  rw [outcome_bind, hasked]

def markFile : List UInt8 := Utf8.encodeText "!\n".toList

theorem ignoreFileFails_markFile : IgnoreFileFails markFile (.badPattern (.notPattern "!\n")) := by
  have hbytes : unifyLineEnds markFile = Utf8.encodeText "!\n".toList := by decide
  have hlines : (endedLines "!\n".toList).map String.ofList = [] ++ "!\n" :: [] := by decide
  exact .badLine hbytes hlines (List.forall_mem_nil _) (.mark (by decide))

/-- The questions in a project with an ignore file are answered, and the answers are saved. -/
theorem exists_asked_pairProject (sync : Bool) (bytes : List UInt8) :
    ∃ planned asked,
      Succeeds (Command.plan (pairConfig sync) pairTask) (pairWorld (some bytes)) (some pairPlan) planned ∧
        Succeeds (attempt pairPlan.ask) planned (some ()) asked ∧ asked.tally.keys ≠ [] ∧
          asked.disk.bytes? ((Pathname.ofRoot pairTask.project).join (.ofString ".gitignore")) =
            .ok (some bytes) ∧
          NamesNoTags (pairConfig sync) pairTask ".env" asked.disk asked.tally.keys := by
  obtain ⟨planned, hplan, hdisk, htally, hinput⟩ := exists_plan_pairProject (some bytes) sync
  obtain ⟨asked, written, hasked, hfolder, hcounted⟩ := exists_ask_pairProject hdisk htally hinput
  refine ⟨planned, asked, hplan, succeeds_attempt hasked, by simp [hcounted], ?_, ?_⟩
  · have hlookup : (putPair ".env" (.file written) (pairEntries (some bytes))).lookup ".gitignore" =
        some (.file bytes) :=
      (lookup_putPair_of_ne (by decide)).trans (lookup_pairEntries (some bytes)).2
    have hpath : (Pathname.ofRoot pairTask.project).join (.ofString ".gitignore") =
        .ofRoot (["app"] ++ [".gitignore"]) := by decide
    unfold Disk.bytes?
    rw [hpath, hfolder.find_eq (by decide), hlookup]
    rfl
  · have htemplate : ¬HasTag ".env.example".toList := by decide
    refine ⟨by decide, htemplate, fun template error later hresolve hfails => ?_⟩
    -- The template is not there yet, and it can be written.
    have hpath : pairTask.path ".env.example" = .ofRoot ["app", ".env.example"] := by decide
    obtain rfl : template = ["app", ".env.example"] :=
      Disk.eq_of_resolve_ofRoot (by decide) (hfolder.linkFree_child ".env.example") (hpath ▸ hresolve)
    have hnew : (putPair ".env" (.file written) (pairEntries (some bytes))).lookup ".env.example" =
        (none : Option (List UInt8)).map .file := lookup_putPair_of_ne (by decide)
    obtain ⟨count, after, hsync⟩ :=
      exists_succeeds_syncTemplate_of_isFolder hfolder (by decide) hnew asked.tally.keys
    cases hsync.symm.trans hfails

/-- **A bad ignore file ends a run after saves.** If something was saved and the questions ended without an
error, then an ignore file that cannot be read stops the run, with the disk as the saves left it. Else the
folder is finished, unless the template stops it. When it is finished, it was tried to add the keys to the
template, and the summary was shown. Where names hold tags, the screen may refuse what is shown, which ends a
run as well: so these are without tags, and `renders` says what the screen takes. -/
theorem fillFolder_returns_iff_ignore_file_is_read {renders : String → Prop} {plan : Plan}
    {planned asked : World} {result : Option Unit}
    (hrenders : ∀ markup, closesStyles markup = true → renders markup)
    (hnames : NamesNoTags config task plan.file asked.disk asked.tally.keys)
    (hplan : Succeeds (Command.plan config task) world (some plan) planned)
    (hasked : Succeeds (attempt plan.ask) planned result asked) (hkeys : asked.tally.keys ≠ [])
    (hbytes : asked.disk.bytes? ((Pathname.ofRoot task.project).join (.ofString ".gitignore")) =
      .ok (some bytes)) :
    (∀ error, IgnoreFileFails bytes error →
        error.isReported = false ∧ Fails (fillFolder config task) world error asked) ∧
      ((∃ count after, Succeeds (fillFolder config task) world count after ∧ Shows renders asked after) ↔
        (∀ error, ¬IgnoreFileFails bytes error) ∧
          ∀ error, ¬SyncStops config task plan.target asked.disk asked.tally.keys error) ∧
        ∀ count after, Succeeds (fillFolder config task) world count after →
          count = asked.tally.saved ∧
            IsSynced config task plan.target asked.disk asked.tally.keys after.disk ∧
              Shows renders asked after ∧ summary count plan.file <:+ after.terminal.events := by
  unfold Succeeds Fails
  rw [outcome_fillFolder hplan hasked]
  have hends := @finish_stops_or_succeeds config task plan.file plan.target asked bytes hkeys hbytes
  rcases hends with ⟨error, hbad, hfails⟩ | ⟨hread, ⟨error, after, hstops, hfails⟩ |
    ⟨hgoesOn, count, after, hsucceeds, hsynced⟩⟩
  · refine ⟨fun other hother => ?_, iff_of_false ?_ fun hread => hread.1 error hbad, ?_⟩
    · obtain rfl := hbad.unique hother
      exact ⟨hbad.isReported_eq, hfails⟩
    · rintro ⟨count, after, hsucceeds, -⟩
      cases hfails.symm.trans hsucceeds
    · rintro count after hsucceeds
      cases hfails.symm.trans hsucceeds
  · refine ⟨fun other hother => absurd hother (hread other), iff_of_false ?_ fun hboth =>
      hboth.2 error hstops, ?_⟩
    · rintro ⟨count, later, hsucceeds, -⟩
      cases hfails.symm.trans hsucceeds
    · rintro count later hsucceeds
      cases hfails.symm.trans hsucceeds
  · have hshows := shows_of_finish hrenders hnames hsucceeds
    refine ⟨fun other hother => absurd hother (hread other),
      iff_of_true ⟨count, after, hsucceeds, hshows⟩ ⟨hread, hgoesOn⟩, ?_⟩
    rintro other later hother
    obtain ⟨rfl, rfl⟩ := Succeeds.unique hsucceeds hother
    obtain ⟨hcount, -, hshown⟩ := succeeds_finish hsucceeds
    exact ⟨hcount, hsynced, hshows, hshown⟩

/-- A project whose ignore file is a single mark. -/
theorem fillFolder_returns_iff_ignore_file_is_read_of_mark :
    IgnoreFileFails markFile (.badPattern (.notPattern "!\n")) ∧ ∃ asked : World, asked.tally.keys ≠ [] ∧
      (∀ error, IgnoreFileFails markFile error → error.isReported = false ∧
        Fails (fillFolder (pairConfig true) pairTask) (pairWorld (some markFile)) error asked) ∧
      ((∃ count after, Succeeds (fillFolder (pairConfig true) pairTask) (pairWorld (some markFile)) count after ∧
          Shows (fun markup => closesStyles markup = true) asked after) ↔
        (∀ error, ¬IgnoreFileFails markFile error) ∧
          ∀ error,
            ¬SyncStops (pairConfig true) pairTask ["app", ".env"] asked.disk asked.tally.keys error) ∧
      ∀ count after,
        Succeeds (fillFolder (pairConfig true) pairTask) (pairWorld (some markFile)) count after →
        count = asked.tally.saved ∧
          IsSynced (pairConfig true) pairTask ["app", ".env"] asked.disk asked.tally.keys after.disk ∧
            Shows (fun markup => closesStyles markup = true) asked after ∧
              summary count ".env" <:+ after.terminal.events := by
  obtain ⟨planned, asked, hplan, hasked, hkeys, hbytes, hnames⟩ := exists_asked_pairProject true markFile
  exact ⟨ignoreFileFails_markFile, asked, hkeys,
    fillFolder_returns_iff_ignore_file_is_read (fun _ => id) hnames hplan hasked hkeys hbytes⟩

/-- **A line that is no pattern aborts a run after saves.** -/
theorem bad_ignore_line_aborts_after_saves :
    ¬∀ (config : Config) (task : FolderTask) (world planned asked : World) (plan : Plan)
      (result : Option Unit) (bytes : List UInt8),
      Succeeds (Command.plan config task) world (some plan) planned →
        Succeeds (attempt plan.ask) planned result asked → asked.tally.keys ≠ [] →
          asked.disk.bytes? ((Pathname.ofRoot task.project).join (.ofString ".gitignore")) =
              .ok (some bytes) →
            ∃ count after, Succeeds (fillFolder config task) world count after ∧
              IsSynced config task plan.target asked.disk asked.tally.keys after.disk ∧
                summary count plan.file <:+ after.terminal.events := by
  intro hall
  obtain ⟨planned, asked, hplan, hasked, hkeys, hbytes, -⟩ := exists_asked_pairProject true markFile
  obtain ⟨count, after, hsucceeds, -, -⟩ := hall _ _ _ _ _ _ _ _ hplan hasked hkeys hbytes
  unfold Succeeds at hsucceeds
  rw [outcome_fillFolder hplan hasked] at hsucceeds
  rcases finish_stops_or_succeeds hkeys hbytes with ⟨error, -, hfails⟩ | ⟨hread, -⟩
  · cases hfails.symm.trans hsucceeds
  · exact hread _ ignoreFileFails_markFile

end EnvFill.Command
