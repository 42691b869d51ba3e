import EnvFill.Proofs.ChangedFolders
import EnvFill.Proofs.SessionRounds

/-!
# How many settings are counted as saved

Each save that succeeds counts all the keys that it writes, also those that were saved before. So the number
that is shown at the end is that of the keys of all saves taken together, and a variable that the user comes
back to, or gives in a paste once more, is counted again. It is the number of variables just where no two
saves have a key in common.
-/

namespace EnvFill.Command

open Procedure Storage EnvFile Fill Project Screen Text

variable {config : Config} {task : FolderTask} {file : String} {target : Location} {found : Found}
  {start world planned last after : World} {saves : List Entries} {count : Nat}

theorem count_of_succeeds_writeSettings {path : Pathname} {writes : Entries} {disk later : Disk}
    (hwrite : Succeeds (writeSettings path writes) disk count later) : count = writes.keys.length := by
  simp only [writeSettings, succeeds_bind_iff, succeeds_pure_iff] at hwrite
  obtain ⟨_, _, -, _, _, -, _, _, -, rfl, -⟩ := hwrite
  rw [OrderedMap.size, OrderedMap.keys, List.length_map]

/-- Every save adds the number of its keys. -/
theorem Reaches.saved_eq (hreaches : Reaches target found start saves world)
    (hstart : start.tally = .start) :
    world.tally.saved = (saves.flatMap OrderedMap.keys).length := by
  induction hreaches with
  | here => rw [hstart]; rfl
  | talk terminal hreaches ih => exact ih
  | save hreaches hwrites hsave ih =>
    obtain ⟨-, count, hwrite, htally, -⟩ := succeeds_save hsave
    rw [htally, Tally.add, ih, count_of_succeeds_writeSettings hwrite, List.flatMap_append,
      List.flatMap_singleton, List.length_append]

theorem mem_savedKeys {key : String} : key ∈ savedKeys saves ↔ key ∈ saves.flatMap OrderedMap.keys := by
  induction saves using List.reverseRecOn with
  | nil => exact iff_of_false List.not_mem_nil List.not_mem_nil
  | append_singleton saves writes ih =>
    rw [savedKeys_concat, addNewKeys, mem_foldl_addNew, ih, List.flatMap_append, List.mem_append,
      List.flatMap_singleton]

/-- No key is counted twice just where no two saves have one in common. -/
theorem length_eq_card_iff : (saves.flatMap OrderedMap.keys).length =
    (saves.flatMap OrderedMap.keys).toFinset.card ↔
      saves.Pairwise fun one other => one.keys.Disjoint other.keys := by
  have hcard : (saves.flatMap OrderedMap.keys).toFinset.card = (saves.flatMap OrderedMap.keys).length ↔
      (saves.flatMap OrderedMap.keys).Nodup :=
    Multiset.toFinset_card_eq_card_iff_nodup.trans Multiset.coe_nodup
  have hkeys : ∀ writes ∈ saves, (OrderedMap.keys writes).Nodup :=
    fun writes _ => writes.nodup_keys
  rw [eq_comm, hcard, List.nodup_flatMap]
  exact and_iff_right hkeys

theorem succeeds_summary (hsummary : Succeeds (do
      let saved := (← get).tally.saved
      display (summary saved file)
      return saved : Procedure Nat) world count after) :
    count = world.tally.saved ∧ after.tally = world.tally ∧
      summary count file <:+ after.terminal.events := by
  obtain ⟨_, _, hget, hclose⟩ := succeeds_bind_iff.mp hsummary
  obtain ⟨rfl, rfl⟩ := succeeds_get_iff.mp hget
  obtain ⟨_, _, hdisplay, hreturn⟩ := succeeds_bind_iff.mp hclose
  obtain rfl := succeeds_display_iff.mp hdisplay
  obtain ⟨rfl, rfl⟩ := succeeds_pure_iff.mp hreturn
  exact ⟨rfl, rfl, List.suffix_append _ _⟩

/-- **After the questions** nothing more is counted, and the summary shows what was. -/
theorem succeeds_finish (hfinish : Succeeds (finish config task target file) world count after) :
    count = world.tally.saved ∧ after.tally = world.tally ∧
      summary count file <:+ after.terminal.events := by
  unfold finish at hfinish
  obtain ⟨_, _, hget, hkept⟩ := succeeds_bind_iff.mp hfinish
  obtain ⟨rfl, rfl⟩ := succeeds_get_iff.mp hget
  split at hkept
  · obtain ⟨_, checked, hcheck, hrest⟩ := succeeds_bind_iff.mp hkept
    obtain ⟨_, synced, hsync, hclose⟩ := succeeds_bind_iff.mp hrest
    rw [← (disk_of_checkIgnored hcheck).2, ← tally_of_syncKeys hsync]
    exact succeeds_summary hclose
  · exact succeeds_summary hkept

/-- The settings are those of the saves that succeed while a folder is filled in, one after another. -/
def IsSavedIn (config : Config) (task : FolderTask) (world : World) (saves : List Entries) : Prop :=
  match outcome (plan config task) world with
  | (.ok (some plan), planned) =>
    ∃ last, Reaches plan.target plan.found planned saves last ∧
      Ends plan.target plan.found last (outcome plan.ask planned).1 (outcome plan.ask planned).2
  | _ => saves = []

/-- What is counted in a folder and what is shown of it. -/
theorem tally_of_carryOut {plan : Plan}
    (hfill : Succeeds (plan.fill config task) planned count after) :
    count = (outcome plan.ask planned).2.tally.saved ∧
      after.tally = (outcome plan.ask planned).2.tally ∧
        summary count plan.file <:+ after.terminal.events := by
  obtain ⟨result, asked, hasked, hfinish⟩ := succeeds_bind_iff.mp hfill
  have htally := tally_attempt plan.ask planned
  rw [hasked] at htally
  rw [← htally]
  exact succeeds_finish hfinish

theorem exists_isSavedIn (config : Config) (task : FolderTask) (world : World) :
    ∃ saves, IsSavedIn config task world saves := by
  unfold IsSavedIn
  split
  · rename_i plan planned hplan
    obtain ⟨saves, last, hreaches, -, hends⟩ := Filling.exists_saves task (of_succeeds_plan hplan).1
    exact ⟨saves, last, hreaches, hends⟩
  · exact ⟨[], rfl⟩

section Answers

variable {names rest : List String} {key : String}

/-- Going back saves nothing. -/
theorem exists_answers_back (found : Found) (session : Session) (hname : names[session.index]? = some key)
    (hindex : session.index ≠ 0) (hinput : world.terminal.input = "back" :: rest) :
    ∃ after, Session.Answers names found (fun question => talk (askValue question)) (save target found)
        session world key .back session.existing after ∧
      after.disk = world.disk ∧ after.tally = world.tally ∧ after.terminal.input = rest := by
  obtain ⟨after, hasked, hdisk, htally, hrest⟩ := exists_succeeds_talk
    (exists_succeeds_askValue_back hinput
      (accept_valuePrompt (session.question names found key) (by decide) (by decide)) (by decide)
      (by decide) (Int.natCast_ne_zero.mpr hindex))
  exact ⟨after, ⟨hname, after, hasked, succeeds_pure_iff.mpr ⟨rfl, rfl⟩⟩, hdisk, htally, hrest⟩

end Answers

def pairEntries (ignoreFile : Option (List UInt8)) : List (String × Node) :=
  (".env.local", .file (Utf8.encodeText "A_ONE=\nB_TWO=\n".toList)) ::
    (ignoreFile.map fun bytes => (".gitignore", .file bytes)).toList

def pairProject (ignoreFile : Option (List UInt8)) : Disk := projectDisk (pairEntries ignoreFile)

def pairFound : Found := ⟨[("A_ONE", [".env.local"]), ("B_TWO", [".env.local"])]⟩

def pairTask : FolderTask := ⟨["app"], none, ["app"]⟩

def pairConfig (sync : Bool) : Config := { envFile := some ".env", syncExample := sync }

def pairPlan : Plan := ⟨".env", ["app", ".env"], pairFound, ∅, some ["A_ONE", "B_TWO"]⟩

theorem isFolder_pairProject (ignoreFile : Option (List UInt8)) :
    IsFolder (pairProject ignoreFile) ["app"] (pairEntries ignoreFile) := by
  cases ignoreFile <;> exact isFolder_projectDisk rfl

theorem lookup_pairEntries (ignoreFile : Option (List UInt8)) :
    (pairEntries ignoreFile).lookup ".env" = (none : Option (List UInt8)).map .file ∧
      (pairEntries ignoreFile).lookup ".gitignore" = ignoreFile.map .file := by
  cases ignoreFile <;> exact ⟨rfl, rfl⟩

theorem scan_pairProject (ignoreFile : Option (List UInt8)) :
    scan (pairProject ignoreFile) (.ofRoot ["app"]) false [] 32 = .ok pairFound := by
  have hothers : ∀ other ∈ Name.sourceFiles, other ≠ ".env.local" →
      keysNamed (((pairEntries ignoreFile).lookup other).bind Node.bytes?) = [] := by
    intro other hother hne
    have hignore : other ≠ ".gitignore" := by
      rintro rfl
      exact absurd hother (by decide)
    rw [pairEntries, List.lookup_cons, beq_false_of_ne hne]
    cases ignoreFile with
    | none => rfl
    | some bytes =>
      rw [Option.map_some, Option.toList_some, List.lookup_cons, beq_false_of_ne hignore]
      rfl
  have hscan := scanSettings_eq_of_only_file (isFolder_pairProject ignoreFile) (by decide)
    (show ".env.local" ∈ Name.sourceFiles by decide) hothers
  have hkeys : keysNamed (some (Utf8.encodeText "A_ONE=\nB_TWO=\n".toList)) = ["A_ONE", "B_TWO"] :=
    (keysNamed_encodeText _).trans (by decide)
  exact hscan.trans (congrArg (fun keys : List String =>
    (.ok (.ofMentions (keys.map fun key => (key, ".env.local"))) : Except Error Found)) hkeys)

/-- The user gives a value, goes back, gives another one, and then one for the second variable. -/
def pairWorld (ignoreFile : Option (List UInt8)) : World :=
  .start (pairProject ignoreFile) ["", "x", "back", "y", "z"]

theorem exists_plan_pairProject (ignoreFile : Option (List UInt8)) (sync : Bool) :
    ∃ planned, Succeeds (plan (pairConfig sync) pairTask) (pairWorld ignoreFile) (some pairPlan) planned ∧
      planned.disk = pairProject ignoreFile ∧ planned.tally = .start ∧
        planned.terminal.input = ["x", "back", "y", "z"] := by
  have hfolder := isFolder_pairProject ignoreFile
  have hroom : HasRoomFor ["app"] ".env" := by decide
  have hresolve : (pairProject ignoreFile).resolve (pairTask.path ".env") = .ok ["app", ".env"] :=
    Disk.resolve_ofRoot (by decide) (hfolder.linkFree_child ".env") (by decide)
  have hexisting : readSettings (pairProject ignoreFile) (.ofRoot ["app", ".env"]) = .ok ∅ := by
    have hfind := hfolder.find_eq hroom
    rw [(lookup_pairEntries ignoreFile).1] at hfind
    unfold readSettings Disk.bytes?
    rw [show ["app", ".env"] = ["app"] ++ [".env"] from rfl, hfind]
    rfl
  have hmode : Mode.ofLine? (reconcile pairFound ∅) "" = some (.fill .missing) := by decide
  exact exists_succeeds_plan rfl (scan_pairProject ignoreFile) rfl rfl hresolve hexisting rfl hmode rfl
    (by decide)

theorem exists_ask_pairProject {ignoreFile : Option (List UInt8)}
    (hdisk : planned.disk = pairProject ignoreFile) (htally : planned.tally = .start)
    (hinput : planned.terminal.input = ["x", "back", "y", "z"]) :
    ∃ asked bytes, Succeeds pairPlan.ask planned () asked ∧
      IsFolder asked.disk ["app"] (putPair ".env" (.file bytes) (pairEntries ignoreFile)) ∧
      asked.tally = ⟨3, ["A_ONE", "B_TWO"]⟩ := by
  have hroom : HasRoomFor ["app"] ".env" := by decide
  have hnew := (lookup_pairEntries ignoreFile).1
  have hthere : ∀ bytes : List UInt8, (putPair ".env" (.file bytes) (pairEntries ignoreFile)).lookup ".env" =
      (some bytes).map .file := fun bytes => lookup_putPair_self
  obtain ⟨started, hstarted, hdisk₁, htally₁, hinput₁⟩ :=
    exists_succeeds_talk (exists_succeeds_startSession planned.terminal)
  have hfolder₁ : IsFolder started.disk ["app"] (pairEntries ignoreFile) := by
    rw [hdisk₁, hdisk]
    exact isFolder_pairProject ignoreFile
  have hone : ["A_ONE", "B_TWO"][0]? = some "A_ONE" := rfl
  have htwo : ["A_ONE", "B_TWO"][1]? = some "B_TWO" := rfl
  obtain ⟨first, hfirst, -, hfolder₂, htally₂, hinput₂⟩ :=
    exists_answers_value pairFound (.start ∅) hfolder₁ hroom hnew hone (hinput₁.trans hinput) (by decide)
      (by decide) (by decide) (by decide)
  let second := (Session.start ∅).answered ["A_ONE", "B_TWO"] "A_ONE" (.value "x")
  obtain ⟨back, hback, hdisk₃, htally₃, hinput₃⟩ :=
    exists_answers_back pairFound second htwo (by decide) hinput₂
  rw [← hdisk₃] at hfolder₂
  let third := second.answered ["A_ONE", "B_TWO"] "B_TWO" .back
  obtain ⟨again, hagain, -, hfolder₄, htally₄, hinput₄⟩ :=
    exists_answers_value pairFound third hfolder₂ hroom (hthere _) hone hinput₃ (by decide)
      (by decide) (by decide) (by decide)
  rw [putPair_putPair] at hfolder₄
  let fourth := third.answered ["A_ONE", "B_TWO"] "A_ONE" (.value "y")
  obtain ⟨asked, hlast, -, hfolder₅, htally₅, -⟩ :=
    exists_answers_value pairFound fourth hfolder₄ hroom (hthere _) htwo hinput₄ (by decide)
      (by decide) (by decide) (by decide)
  rw [putPair_putPair] at hfolder₅
  refine ⟨asked, _, succeeds_askAll hstarted
    (.next hfirst rfl (.next hback rfl (.next hagain rfl (.final hlast rfl)))), hfolder₅, ?_⟩
  rw [htally₅, htally₄, htally₃, htally₂, htally₁, htally]
  rfl

/-- The folder is filled in, and three settings are counted. -/
theorem exists_fillFolder_pairProject :
    ∃ planned asked after,
      Succeeds (plan (pairConfig false) pairTask) (pairWorld none) (some pairPlan) planned ∧
        Succeeds pairPlan.ask planned () asked ∧ asked.tally = ⟨3, ["A_ONE", "B_TWO"]⟩ ∧
          Succeeds (fillFolder (pairConfig false) pairTask) (pairWorld none) 3 after := by
  obtain ⟨planned, hplan, hdisk, htally, hinput⟩ := exists_plan_pairProject none false
  obtain ⟨asked, bytes, hasked, hfolder, hcounted⟩ := exists_ask_pairProject hdisk htally hinput
  have hnone : (putPair ".env" (.file bytes) (pairEntries none)).lookup ".gitignore" = none :=
    lookup_putPair_of_ne (by decide)
  have htemplate : asked.disk.resolve (pairTask.path (pairConfig false).exampleFile) =
      .ok ["app", ".env.example"] :=
    Disk.resolve_ofRoot (by decide) (hfolder.linkFree_child ".env.example") (by decide)
  have hwritten : TemplateIsWritten (pairConfig false) pairTask ["app", ".env"] asked :=
    fun _ _ _ hsync => absurd hsync Bool.false_ne_true
  have hfinish : ∃ after, Succeeds (finish (pairConfig false) pairTask ["app", ".env"] ".env") asked
      asked.tally.saved after :=
    exists_succeeds_finish (isIgnored?_of_none hfolder (by decide) hnone _) htemplate hwritten
  obtain ⟨after, hfinish⟩ := hfinish
  rw [hcounted] at hfinish
  refine ⟨planned, asked, after, hplan, hasked, hcounted, ?_⟩
  rw [fillFolder_eq]
  exact succeeds_bind_iff.mpr ⟨_, planned, hplan,
    succeeds_bind_iff.mpr ⟨_, asked, succeeds_attempt hasked, hfinish⟩⟩

/-- **The count is that of the keys of all saves.** If a folder is filled in, the number that comes of it and
that the summary shows adds up the keys of the saves that succeeded. So it is at least the number of variables
that were saved, and it is that number just where no variable was saved twice. -/
theorem fillFolder_counts_keys_of_saves (hfill : Succeeds (fillFolder config task) world count after) :
    (∃ saves, IsSavedIn config task world saves) ∧
      (∀ saves, IsSavedIn config task world saves →
        count = (saves.flatMap OrderedMap.keys).length ∧
          (saves.flatMap OrderedMap.keys).toFinset.card ≤ count ∧
            (count = (saves.flatMap OrderedMap.keys).toFinset.card ↔
              saves.Pairwise fun one other => one.keys.Disjoint other.keys)) ∧
        ∀ filling ∈ fillingsIn config task world, summary count filling.file <:+ after.terminal.events := by
  have hcounted : (∀ saves, IsSavedIn config task world saves →
      count = (saves.flatMap OrderedMap.keys).length) ∧
        ∀ filling ∈ fillingsIn config task world, summary count filling.file <:+ after.terminal.events := by
    unfold IsSavedIn fillingsIn
    rw [fillFolder_eq] at hfill
    obtain ⟨planned?, planned, hplan, hcarry⟩ := succeeds_bind_iff.mp hfill
    rw [hplan]
    cases planned? with
    | none =>
      obtain ⟨rfl, -⟩ := succeeds_pure_iff.mp hcarry
      refine ⟨?_, fun filling hfilling => absurd hfilling List.not_mem_nil⟩
      rintro saves rfl
      rfl
    | some plan =>
      obtain ⟨hcount, -, hshown⟩ := tally_of_carryOut hcarry
      refine ⟨?_, fun filling hfilling => ?_⟩
      · rintro saves ⟨last, hreaches, hends⟩
        rw [hcount, hends.tally_eq, hreaches.saved_eq (of_succeeds_plan hplan).1]
      · obtain rfl := List.mem_singleton.mp hfilling
        exact hshown
  refine ⟨exists_isSavedIn config task world, fun saves hsaves => ?_, hcounted.2⟩
  obtain rfl := hcounted.1 saves hsaves
  exact ⟨rfl, List.toFinset_card_le _, length_eq_card_iff⟩

/-- A folder in which the user goes back once. -/
theorem fillFolder_counts_keys_of_saves_of_return :
    ∃ count after,
      Succeeds (fillFolder (pairConfig false) pairTask) (pairWorld none) count after ∧
        (∃ saves, IsSavedIn (pairConfig false) pairTask (pairWorld none) saves) ∧
          (∀ saves, IsSavedIn (pairConfig false) pairTask (pairWorld none) saves →
            count = (saves.flatMap OrderedMap.keys).length ∧
              (saves.flatMap OrderedMap.keys).toFinset.card ≤ count ∧
                (count = (saves.flatMap OrderedMap.keys).toFinset.card ↔
                  saves.Pairwise fun one other => one.keys.Disjoint other.keys)) ∧
            ∀ filling ∈ fillingsIn (pairConfig false) pairTask (pairWorld none),
              summary count filling.file <:+ after.terminal.events := by
  obtain ⟨-, -, after, -, -, -, hfill⟩ := exists_fillFolder_pairProject
  exact ⟨3, after, hfill, fillFolder_counts_keys_of_saves hfill⟩

/-- **A variable that the user comes back to is counted twice.** -/
theorem saved_again_counts_again :
    ¬∀ (config : Config) (task : FolderTask) (world after : World) (count : Nat) (saves : List Entries),
      Succeeds (fillFolder config task) world count after → IsSavedIn config task world saves →
        count = (saves.flatMap OrderedMap.keys).toFinset.card := by
  intro hall
  obtain ⟨planned, asked, after, hplan, hasked, hcounted, hfill⟩ := exists_fillFolder_pairProject
  obtain ⟨saves, hsaves⟩ :=
    exists_isSavedIn (pairConfig false) pairTask (pairWorld none)
  have hcount := hall _ _ _ _ _ _ hfill hsaves
  unfold IsSavedIn at hsaves
  rw [hplan] at hsaves
  obtain ⟨last, hreaches, hends⟩ := hsaves
  have hkeys : savedKeys saves = ["A_ONE", "B_TWO"] := by
    rw [← hreaches.keys_eq (of_succeeds_plan hplan).1, ← hends.tally_eq, hasked]
    exact congrArg Tally.keys hcounted
  have hdistinct : (saves.flatMap OrderedMap.keys).toFinset = ["A_ONE", "B_TWO"].toFinset := by
    ext key
    rw [List.mem_toFinset, List.mem_toFinset, ← mem_savedKeys, hkeys]
  rw [hdistinct] at hcount
  exact absurd hcount (by decide)

end EnvFill.Command
