import EnvFill.Proofs.AbreastDisks
import EnvFill.Proofs.ClearedScan

/-!
# Folders that are filled in one after another

Two folders are filled in, each with its own answers, by its settings files alone. In which order does not
matter: each shows the same as if it were filled in alone, and the disk is the same in the end. The files
that are written for one are in the other neither read nor in the way, even if one folder lies below the
other.
-/

namespace EnvFill.Command

open Procedure Storage Node EnvFile Fill Project Screen

/-- A folder is filled in by its settings files alone. Which file is written is settled, and the template
is the usual one. -/
structure FillsFile (config : Config) (file : String) : Prop where
  shallow : config.deep = false
  file_eq : config.envFile = some file
  writable : file ∈ Name.writableFiles
  example_eq : config.exampleFile = ".env.example"

/-- Fills in a folder on the same screen with input of its own. Gives how many settings were saved, and
what was shown. -/
def fillWith (config : Config) (task : FolderTask) (input : List String) : Procedure (Nat × List Event) := do
  modify fun world => { world with terminal := { world.terminal with input := input, events := [] } }
  let saved ← fillFolder config task
  return (saved, (← get).terminal.events)

section Carries

variable {config : Config} {task : FolderTask} {file name : String} {changed : Location → Prop}
  {start twin : Disk} {screens : Terminal → Terminal → Prop} {tallies : Tally → Tally → Prop}

abbrev FilledAlike (task : FolderTask) (changed : Location → Prop) (start twin : Disk)
    (screens : Terminal → Terminal → Prop) (tallies : Tally → Tally → Prop) : World → World → Prop :=
  WorldsAlike screens tallies (Abreast changed task.folder start twin)

theorem carries_announce (label : Option String) :
    Carries (FilledAlike task changed start twin SameScreen tallies)
      (FilledAlike task changed start twin SameScreen tallies) (announce label) := by
  cases label with
  | none => exact carries_pure _
  | some label => exact carries_talk (carries_display _)

section Write

variable (hnames : ∀ other ∈ task.folder, IsName other)
  (htext : Disk.checkText (.ofRoot task.folder) = .ok ())
  (hshort : ∀ other ∈ task.folder, isTooLong other = false) (hname : IsName name)
  (hignore : name ≠ ".gitignore")

include hnames htext hshort hname hignore

theorem carries_save (hshow : ∀ events, Carries screens screens (Dialogue.display events))
    (found : Found) (existing writes : Entries) :
    Carries (FilledAlike task changed start twin screens Eq)
      (FilledAlike task changed start twin screens Eq)
      (save (task.folder ++ [name]) found existing writes) := by
  unfold save
  refine (carries_change (carries_writeSettings hnames htext hshort hname hignore _)).bind fun count => ?_
  refine (carries_modify fun world other halike => ?_).bind fun _ => ?_
  · exact ⟨halike.screen, congrArg (Tally.add · count writes.keys) halike.tally, halike.disk⟩
  refine carries_get_bind (fun world other halike => ?_) fun world => ?_
  · rw [halike.tally]
  · exact (carries_talk (hshow _)).bind fun _ => carries_pure _

theorem carries_askAll (found : Found) (existing : Entries) (names : List String) :
    Carries (FilledAlike task changed start twin SameScreen Eq)
      (FilledAlike task changed start twin SameScreen Eq)
      (askAll (task.folder ++ [name]) found existing names) := by
  have hscreens : ∀ world other, FilledAlike task changed start twin Eq Eq world other →
      FilledAlike task changed start twin SameScreen Eq world other := by
    intro world other halike
    exact ⟨halike.screen ▸ ⟨rfl, rfl⟩, halike.tally, halike.disk⟩
  refine (carries_talk carries_startSession).bind_of_succeeds hscreens fun _ _ _ _ _ _ => ?_
  refine Carries.mono ?_ (fun _ _ => id) hscreens
  refine carries_get_bind (fun world other halike => ?_) fun world => ?_
  · rw [halike.screen]
  refine (Session.carries_run (fun question => carries_talk (carries_eq _)) ?_ _ _).bind
    fun _ => carries_pure _
  exact carries_save hnames htext hshort hname hignore (fun _ => carries_eq _) found

theorem carries_askPaste (found : Found) (existing : Entries) :
    Carries (FilledAlike task changed start twin SameScreen Eq)
      (FilledAlike task changed start twin SameScreen Eq)
      (askPaste (task.folder ++ [name]) found existing) := by
  refine (carries_talk carries_confirmPaste).bind fun pasted => ?_
  cases pasted with
  | none => exact carries_pure _
  | some values =>
    refine (carries_save hnames htext hshort hname hignore carries_display found _ _).bind fun _ => ?_
    exact carries_pure _

omit htext hshort hname hignore hnames in
theorem carries_checkIgnored (target : Location) :
    Carries (FilledAlike task changed start twin SameScreen tallies)
      (FilledAlike task changed start twin SameScreen tallies) (checkIgnored task target name) := by
  refine (carries_lookUp fun disk other habreast => ?_).bind fun ignored => ?_
  · exact isIgnored?_eq habreast.agree habreast.ignore _
  · split
    · exact carries_talk (carries_display _)
    · exact carries_pure _

end Write

section Fill

variable (hconfig : FillsFile config file) (hnames : ∀ other ∈ task.folder, IsName other)

include hconfig hnames

section Followed

variable (htext : Disk.checkText (.ofRoot task.folder) = .ok ())
  (hshort : ∀ other ∈ task.folder, isTooLong other = false)

include htext hshort

theorem carries_syncKeys (target : Location) :
    Carries (FilledAlike task changed start twin SameScreen Eq)
      (FilledAlike task changed start twin SameScreen Eq) (syncKeys config task target) := by
  have hexample : IsName ".env.example" := by decide
  have hchild := forall_isName_concat hnames hexample
  unfold syncKeys
  rw [hconfig.example_eq, path_of_example]
  refine (carries_lookUp fun disk other habreast => ?_).bind_of_succeeds (fun _ _ => id) ?_
  · rw [habreast.agree.resolve_ofRoot hchild]
  intro template world other looked halike hlook
  have hresolve := followed_eq_ok_iff.mp (succeeds_lookUp_iff.mp hlook).1
  obtain rfl := Disk.eq_of_resolve_ofRoot hchild (halike.disk.agree.free _) hresolve
  split
  · refine carries_get_bind (fun world other halike => ?_) fun world => ?_
    · rw [halike.tally]
    refine (Carries.attempt ((carries_change ?_).bind fun count => ?_)).bind fun _ => carries_pure _
    · exact carries_syncTemplate hnames htext hshort hexample (by decide) world.tally.keys
    · exact carries_talk (carries_display _)
  · exact carries_pure _

theorem carries_finish (target : Location) :
    Carries (FilledAlike task changed start twin SameScreen Eq)
      (FilledAlike task changed start twin SameScreen Eq) (finish config task target file) := by
  have hclose : Carries (FilledAlike task changed start twin SameScreen Eq)
      (FilledAlike task changed start twin SameScreen Eq) (do
        let saved := (← get).tally.saved
        display (summary saved file)
        return saved : Procedure Nat) := by
    refine carries_get_bind (fun world other halike => ?_) fun world => ?_
    · rw [halike.tally]
    · exact (carries_talk (carries_display _)).bind fun _ => carries_pure _
  unfold finish
  refine carries_get_bind (fun world other halike => ?_) fun world => ?_
  · rw [halike.tally]
  split
  · refine (carries_checkIgnored target).bind fun _ => ?_
    exact (carries_syncKeys hconfig hnames htext hshort target).bind fun _ => hclose
  · exact hclose

theorem carries_fillFound (found : Found) :
    Carries (FilledAlike task changed start twin SameScreen fun _ _ => True)
      (FilledAlike task changed start twin SameScreen fun _ _ => True) (fillFound config task found) := by
  obtain ⟨hpath, hname, -, -, -⟩ := path_of_writable task hconfig.writable
  have hignore : file ≠ ".gitignore" := by
    rintro rfl
    exact absurd hconfig.writable (by decide)
  have hchild := forall_isName_concat hnames hname
  have hplace : ∀ world other, FilledAlike task changed start twin SameScreen Eq world other →
      FilledAlike task changed start twin SameScreen (fun _ _ => True) world other :=
    fun world other halike => ⟨halike.screen, trivial, halike.disk⟩
  have htarget : chooseTarget config task = pure file := by
    have hfile : config.envFile.filter (!·.isEmpty) = some file := by
      rw [hconfig.file_eq, Option.filter_some]
      simp [hname.1]
    unfold chooseTarget
    rw [hfile]
  unfold fillFound
  rw [htarget, pure_bind, hpath]
  refine (carries_lookUp fun disk other habreast => ?_).bind_of_succeeds (fun _ _ => id) ?_
  · rw [habreast.agree.resolve_ofRoot hchild]
  intro target world other looked halike hlook
  have hresolve := followed_eq_ok_iff.mp (succeeds_lookUp_iff.mp hlook).1
  obtain rfl := Disk.eq_of_resolve_ofRoot hchild (halike.disk.agree.free _) hresolve
  refine (carries_lookUp fun disk other habreast => ?_).bind fun existing => ?_
  · exact readSettings_eq habreast.agree hchild (habreast.apart file)
  refine (carries_talk (carries_display _)).bind fun _ => ?_
  -- From here on the tallies are the same.
  refine Carries.bind_of_succeeds (carries_modify fun world other halike => ?_) hplace fun _ _ _ _ _ _ => ?_
  · exact ⟨halike.screen, rfl, halike.disk⟩
  refine Carries.mono ?_ (fun _ _ => id) hplace
  refine (carries_talk (carries_chooseMode _)).bind fun mode => ?_
  cases mode with
  | exit => exact (carries_talk (carries_display _)).bind fun _ => carries_pure _
  | paste =>
    refine (Carries.attempt ?_).bind fun _ => carries_finish hconfig hnames htext hshort _
    exact carries_askPaste hnames htext hshort hname hignore found existing
  | fill scope =>
    dsimp only
    split
    · exact (carries_talk (carries_display _)).bind fun _ => carries_pure _
    · refine (Carries.attempt ?_).bind fun _ => carries_finish hconfig hnames htext hshort _
      exact carries_askAll hnames htext hshort hname hignore found existing _

end Followed

theorem carries_fillFolder :
    Carries (FilledAlike task changed start twin SameScreen fun _ _ => True)
      (FilledAlike task changed start twin SameScreen fun _ _ => True) (fillFolder config task) := by
  unfold fillFolder scan
  rw [hconfig.shallow]
  refine (carries_announce task.label).bind fun _ => (carries_talk (carries_display _)).bind fun _ => ?_
  refine (Carries.attempt (carries_lookUp fun disk other habreast => ?_)).bind_of_succeeds (fun _ _ => id) ?_
  · exact scanSettings_of_agree habreast.agree hnames habreast.isDirAt fun file _ => habreast.apart file
  intro scanned world other looked halike hscanned
  cases scanned with
  | none => exact carries_pure _
  | some found =>
    dsimp only
    split
    · exact (carries_talk (carries_display _)).bind fun _ => carries_pure _
    -- A folder that was scanned is one that can be followed.
    have hscan := (succeeds_lookUp_iff.mp (of_succeeds_attempt hscanned)).1
    obtain ⟨_, _, hroot, -⟩ := scanSettings_returns_iff.mp hscan
    obtain ⟨-, entries, -, hfolder⟩ :=
      isDirectory_of_scanRoot hnames (halike.disk.agree.free task.folder) hroot
    exact carries_fillFound hconfig hnames hfolder.text hfolder.short found

theorem carries_fillWith (input : List String) :
    Carries (FilledAlike task changed start twin (fun _ _ => True) fun _ _ => True)
      (FilledAlike task changed start twin (fun _ _ => True) fun _ _ => True)
      (fillWith config task input) := by
  have hany : ∀ world other,
      FilledAlike task changed start twin SameScreen (fun _ _ => True) world other →
        FilledAlike task changed start twin (fun _ _ => True) (fun _ _ => True) world other :=
    fun world other halike => ⟨trivial, trivial, halike.disk⟩
  refine Carries.mono (Carries.bind (carries_modify fun world other halike => ?_) fun _ => ?_)
    (fun _ _ => id) hany
  · exact ⟨⟨rfl, rfl⟩, trivial, halike.disk⟩
  refine (carries_fillFolder hconfig hnames).bind fun saved => ?_
  refine carries_get_bind (fun world other halike => ?_) fun world => carries_pure _
  rw [halike.screen.2]

end Fill

end Carries

/-! ### The order of the folders -/

variable {config : Config} {file : String} {one two : FolderTask} {world : World}

/-- What is filled in on one disk is filled in alike where files were written in another folder. -/
theorem exists_fillWith_beside (hconfig : FillsFile config file) {task : FolderTask} {folder : Location}
    {files : List (String × List UInt8)} {input : List String} {result : Nat × List Event}
    {beside after : World} (hnames : ∀ name ∈ task.folder, IsName name)
    (hfree : ∀ place, IsLinkFree place world.disk.top) (hdir : IsDirAt world.disk task.folder)
    (hfolder : IsDirAt world.disk folder) (hne : task.folder ≠ folder)
    (hfiles : ∀ file ∈ files, file.1 ≠ ".gitignore" ∧ ¬IsDirAt world.disk (folder ++ [file.1]))
    (hbeside : beside.disk = world.disk.putFiles folder files)
    (hfill : Succeeds (fillWith config task input) world result after) :
    ∃ last written, Succeeds (fillWith config task input) beside result last ∧
      (∀ file ∈ written, file.1 ≠ ".gitignore" ∧ ¬IsDirAt world.disk (task.folder ++ [file.1])) ∧
        after.disk = world.disk.putFiles task.folder written ∧
          last.disk = beside.disk.putFiles task.folder written := by
  have hagree := agreeBut_putFiles hfree hfolder fun file hfile => (hfiles file hfile).2
  have halike : FilledAlike task (fun place => ∃ file ∈ files, place = folder ++ [file.1]) world.disk
      beside.disk (fun _ _ => True) (fun _ _ => True) world beside := by
    refine ⟨trivial, trivial, hbeside ▸ hagree, ?_, ?_, hfree, hdir, [], by simp, rfl, rfl⟩
    · rintro name ⟨file, -, heq⟩
      exact hne (List.append_inj_left' heq rfl)
    · rintro _ ⟨file, hfile, rfl⟩ hlast
      rw [List.getLast?_concat] at hlast
      exact (hfiles file hfile).1 (Option.some.inj hlast)
  obtain ⟨hresult, -, -, hdisks⟩ := carries_fillWith hconfig hnames input world beside halike
  rw [hfill] at hresult hdisks
  obtain ⟨written, hwritten, hafter, hlast⟩ := hdisks.written
  refine ⟨(outcome (fillWith config task input) beside).2, written, ?_, hwritten, hafter, hlast⟩
  exact Prod.ext hresult.symm rfl

/-- **Folders are independent.** Two folders of a disk without links are filled in by their settings files
alone, each with input of its own. If each can be filled in first, they can be filled in one after the
other in both orders: each comes to the same and shows the same as before, and the disk is the same in the
end. -/
theorem fills_in_either_order (hconfig : FillsFile config file)
    (hlinks : world.disk.top.linkCount = 0) (hnamesOne : ∀ name ∈ one.folder, IsName name)
    (hnamesTwo : ∀ name ∈ two.folder, IsName name) (hdirOne : IsDirAt world.disk one.folder)
    (hdirTwo : IsDirAt world.disk two.folder) (hne : one.folder ≠ two.folder)
    {inputOne inputTwo : List String} {resultOne resultTwo : Nat × List Event} {afterOne afterTwo : World}
    (hone : Succeeds (fillWith config one inputOne) world resultOne afterOne)
    (htwo : Succeeds (fillWith config two inputTwo) world resultTwo afterTwo) :
    ∃ last other,
      Succeeds (do
          let first ← fillWith config one inputOne
          let second ← fillWith config two inputTwo
          return (first, second)) world (resultOne, resultTwo) last ∧
        Succeeds (do
          let second ← fillWith config two inputTwo
          let first ← fillWith config one inputOne
          return (first, second)) world (resultOne, resultTwo) other ∧
        last.disk = other.disk := by
  have hfree := isLinkFree_of_linkCount hlinks
  have halone : world.disk = world.disk.putFiles one.folder [] := rfl
  obtain ⟨-, files, -, hfiles, hafterTwo, -⟩ := exists_fillWith_beside hconfig hnamesTwo hfree hdirTwo
    hdirOne hne.symm (List.forall_mem_nil _) halone htwo
  obtain ⟨other, written, hother, hwritten, hafterOne, hdiskOther⟩ :=
    exists_fillWith_beside hconfig hnamesOne hfree hdirOne hdirTwo hne hfiles hafterTwo hone
  obtain ⟨last, others, hlast, hothers, hafterTwo', hdiskLast⟩ :=
    exists_fillWith_beside hconfig hnamesTwo hfree hdirTwo hdirOne hne.symm hwritten hafterOne htwo
  refine ⟨last, other, ?_, ?_, ?_⟩
  · refine succeeds_bind_iff.mpr ⟨resultOne, afterOne, hone, ?_⟩
    exact succeeds_bind_iff.mpr ⟨resultTwo, last, hlast, succeeds_pure_iff.mpr ⟨rfl, rfl⟩⟩
  · refine succeeds_bind_iff.mpr ⟨resultTwo, afterTwo, htwo, ?_⟩
    exact succeeds_bind_iff.mpr ⟨resultOne, other, hother, succeeds_pure_iff.mpr ⟨rfl, rfl⟩⟩
  · calc last.disk
        = (world.disk.putFiles one.folder written).putFiles two.folder others := by
          rw [hdiskLast, hafterOne]
      _ = (world.disk.putFiles two.folder others).putFiles one.folder written :=
          Disk.putFiles_comm hdirOne hdirTwo hne
            (fun file hfile => hdirTwo.not_isPrefix (hwritten file hfile).2)
            (fun file hfile => hdirOne.not_isPrefix (hothers file hfile).2)
      _ = other.disk := by rw [hdiskOther, hafterTwo']

theorem succeeds_fillWith {task : FolderTask} {input : List String} {saved : Nat} {after : World}
    (hfill : Succeeds (fillFolder config task)
      { world with terminal := { world.terminal with input := input, events := [] } } saved after) :
    Succeeds (fillWith config task input) world (saved, after.terminal.events) after := by
  refine succeeds_bind_iff.mpr ⟨(), _, succeeds_modify_iff.mpr rfl, ?_⟩
  refine succeeds_bind_iff.mpr ⟨saved, after, hfill, ?_⟩
  refine succeeds_bind_iff.mpr ⟨after, after, succeeds_get_iff.mpr ⟨rfl, rfl⟩, ?_⟩
  exact succeeds_pure_iff.mpr ⟨rfl, rfl⟩

def nestedEntry : String × Node := (".env.local", .file (Text.Utf8.encodeText "API_KEY=\n".toList))

/-- A project with a variable, and a folder in it with one as well. -/
def webProject : Disk := projectDisk [nestedEntry, ("web", .dir [nestedEntry])]

theorem isFolder_webProject : IsFolder webProject ["app"] [nestedEntry, ("web", .dir [nestedEntry])] :=
  isFolder_projectDisk rfl

theorem isFolder_webFolder : IsFolder webProject ["app", "web"] [nestedEntry] :=
  ⟨by decide, by decide, by decide, isLinkFree_of_linkCount rfl _, rfl, rfl⟩

theorem keysNamed_nestedEntry (rest : List (String × Node)) :
    keysNamed (((nestedEntry :: rest).lookup ".env.local").bind Node.bytes?) = ["API_KEY"] :=
  (keysNamed_encodeText _).trans (by decide)

/-- The project is filled in. -/
theorem exists_fillsMissing_webProject :
    ∃ after, FillsMissing { envFile := some ".env" } ⟨["app"], none, ["app"]⟩ ".env"
      (.start webProject ["", "secret"]) [.value "secret"] 1 after := by
  have hscan : scan webProject (.ofRoot ["app"]) false [] 32 = .ok sampleFound := by
    refine scanSettings_eq_of_only isFolder_webProject (by decide) (by decide) (keysNamed_nestedEntry _)
      fun other hother hne => ?_
    have hweb : other ≠ "web" := by
      rintro rfl
      exact absurd hother (by decide)
    rw [nestedEntry, List.lookup_cons, beq_false_of_ne hne, List.lookup_cons, beq_false_of_ne hweb]
    rfl
  have hnew : [nestedEntry, ("web", .dir [nestedEntry])].lookup ".env" =
      (none : Option (List UInt8)).map .file := rfl
  have hproject : IsFolder (webProject.put ["app", ".env"] (.file sampleTarget)) ["app"]
      (putPair ".env" (.file sampleTarget) [nestedEntry, ("web", .dir [nestedEntry])]) :=
    isFolder_webProject.put hnew
  have hignored := isIgnored?_of_none hproject (by decide) rfl (.ofRoot ["app", ".env"])
  have htemplate : [nestedEntry, ("web", .dir [nestedEntry])].lookup ".env.example" =
      (none : Option (List UInt8)).map .file := rfl
  exact exists_fillsMissing_of_isFolder isFolder_webProject (by decide) hscan hnew htemplate hignored

/-- The folder in the project is filled in. -/
theorem exists_fillsMissing_webFolder :
    ∃ after, FillsMissing { envFile := some ".env" } ⟨["app", "web"], none, ["app"]⟩ ".env"
      (.start webProject ["", "secret"]) [.value "secret"] 1 after := by
  have hscan : scan webProject (.ofRoot ["app", "web"]) false [] 32 = .ok sampleFound := by
    refine scanSettings_eq_of_only isFolder_webFolder (by decide) (by decide) (keysNamed_nestedEntry _)
      fun other _ hne => ?_
    rw [nestedEntry, List.lookup_cons, beq_false_of_ne hne]
    rfl
  have hnew : [nestedEntry].lookup ".env" = (none : Option (List UInt8)).map .file := rfl
  have hproject : IsFolder (webProject.put ["app", "web", ".env"] (.file sampleTarget)) ["app"]
      [nestedEntry, ("web", .dir (putPair ".env" (.file sampleTarget) [nestedEntry]))] :=
    ⟨by decide, by decide, by decide, isLinkFree_of_linkCount rfl _, rfl, rfl⟩
  have hignored := isIgnored?_of_none hproject (by decide) rfl (.ofRoot ["app", "web", ".env"])
  have htemplate : [nestedEntry].lookup ".env.example" = (none : Option (List UInt8)).map .file := rfl
  exact exists_fillsMissing_of_isFolder isFolder_webFolder (by decide) hscan hnew htemplate hignored

/-- A project and a folder in it: in each a variable is given a value. -/
theorem fills_in_either_order_of_webProject :
    ∃ resultOne resultTwo last other, resultOne.1 = 1 ∧ resultTwo.1 = 1 ∧
      Succeeds (do
          let first ← fillWith { envFile := some ".env" } ⟨["app"], none, ["app"]⟩ ["", "secret"]
          let second ← fillWith { envFile := some ".env" } ⟨["app", "web"], none, ["app"]⟩ ["", "secret"]
          return (first, second)) (.start webProject []) (resultOne, resultTwo) last ∧
        Succeeds (do
          let second ← fillWith { envFile := some ".env" } ⟨["app", "web"], none, ["app"]⟩ ["", "secret"]
          let first ← fillWith { envFile := some ".env" } ⟨["app"], none, ["app"]⟩ ["", "secret"]
          return (first, second)) (.start webProject []) (resultOne, resultTwo) other ∧
        last.disk = other.disk := by
  obtain ⟨afterOne, hone⟩ := exists_fillsMissing_webProject
  obtain ⟨afterTwo, htwo⟩ := exists_fillsMissing_webFolder
  have hconfig : FillsFile { envFile := some ".env" } ".env" := ⟨rfl, rfl, by decide, rfl⟩
  have hfirst : Succeeds (fillWith { envFile := some ".env" } ⟨["app"], none, ["app"]⟩ ["", "secret"])
      (.start webProject []) (1, afterOne.terminal.events) afterOne := succeeds_fillWith hone.succeeds
  have hsecond : Succeeds (fillWith { envFile := some ".env" } ⟨["app", "web"], none, ["app"]⟩ ["", "secret"])
      (.start webProject []) (1, afterTwo.terminal.events) afterTwo := succeeds_fillWith htwo.succeeds
  obtain ⟨last, other, horders⟩ := fills_in_either_order hconfig rfl (by decide) (by decide) ⟨_, rfl⟩
    ⟨_, rfl⟩ (by decide) hfirst hsecond
  exact ⟨_, _, last, other, rfl, rfl, horders⟩

end EnvFill.Command
