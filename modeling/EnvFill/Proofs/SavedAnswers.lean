import EnvFill.Command.FillFolder
import EnvFill.Proofs.CommandParts
import EnvFill.Proofs.FileRuns
import EnvFill.Proofs.ReadLines
import EnvFill.Proofs.SessionRuns
import EnvFill.Proofs.Template

/-!
# Answers that are saved

Conversations leave the disk alone, and each value that is given in a session is written to the file
before the next question. So a session with values alone is a run of writes, one for each variable.
-/

namespace EnvFill.Command

open Procedure Storage EnvFile Fill Project Screen

namespace Procedure

variable {α : Type} {world after : World} {a : α}

theorem succeeds_talk_iff {dialogue : Dialogue α} :
    Succeeds (talk dialogue) world a after ↔
      ∃ terminal, Succeeds dialogue world.terminal a terminal ∧
        after = { world with terminal := terminal } := by
  unfold Succeeds
  rw [outcome_talk]
  rcases outcome dialogue world.terminal with ⟨result, terminal⟩
  cases result with
  | ok b => simp [Except.mapError, eq_comm]
  | error error => simp [Except.mapError]

theorem disk_of_talk {dialogue : Dialogue α} (htalk : Succeeds (talk dialogue) world a after) :
    after.disk = world.disk ∧ after.tally = world.tally := by
  obtain ⟨terminal, -, rfl⟩ := succeeds_talk_iff.mp htalk
  exact ⟨rfl, rfl⟩

theorem succeeds_display_iff {events : List Event} {a : Unit} :
    Succeeds (display events) world a after ↔
      after = { world with terminal := { world.terminal with
        events := world.terminal.events ++ events } } := by
  simp [Succeeds, outcome_display, eq_comm]

theorem exists_succeeds_display (world : World) (events : List Event) :
    ∃ after, Succeeds (display events) world () after ∧ after.disk = world.disk ∧
      after.tally = world.tally ∧ after.terminal.input = world.terminal.input :=
  ⟨_, succeeds_display_iff.mpr rfl, rfl, rfl, rfl⟩

/-- A conversation that comes to a result does so as part of a command. -/
theorem exists_succeeds_talk {dialogue : Dialogue α} {rest : List String}
    (hrun : ∃ later, Succeeds dialogue world.terminal a later ∧ later.input = rest) :
    ∃ after, Succeeds (talk dialogue) world a after ∧ after.disk = world.disk ∧
      after.tally = world.tally ∧ after.terminal.input = rest := by
  obtain ⟨later, hlater, hrest⟩ := hrun
  exact ⟨_, succeeds_talk_iff.mpr ⟨later, hlater, rfl⟩, rfl, rfl, hrest⟩

@[simp]
theorem succeeds_lookUp_iff {question : Disk → Except Error α} :
    Succeeds (lookUp question) world a after ↔ question world.disk = .ok a ∧ after = world := by
  simp [Succeeds, outcome_lookUp, eq_comm]

theorem succeeds_change_iff {edit : Edit Error α} :
    Succeeds (change edit) world a after ↔
      ∃ disk, Succeeds edit world.disk a disk ∧ after = { world with disk := disk } := by
  unfold Succeeds
  rw [outcome_change]
  rcases outcome edit world.disk with ⟨result, disk⟩
  simp [eq_comm]

theorem fails_change_iff {edit : Edit Error α} {error : Error} :
    Fails (change edit) world error after ↔
      ∃ disk, Fails edit world.disk error disk ∧ after = { world with disk := disk } := by
  unfold Fails
  rw [outcome_change]
  rcases outcome edit world.disk with ⟨result, disk⟩
  simp [eq_comm]

theorem not_fails_display {events : List Event} {error : Error} :
    ¬Fails (display events) world error after := by
  simp [Fails, outcome_display]

theorem succeeds_attempt {action : Procedure α} (haction : Succeeds action world a after) :
    Succeeds (attempt action) world (some a) after := by
  unfold Succeeds
  rw [outcome_attempt, haction]

/-- What was not caught has succeeded. -/
theorem of_succeeds_attempt {action : Procedure α}
    (hattempt : Succeeds (attempt action) world (some a) after) : Succeeds action world a after := by
  unfold Succeeds at hattempt ⊢
  rw [outcome_attempt] at hattempt
  rcases haction : outcome action world with ⟨result, later⟩
  rw [haction] at hattempt
  cases result with
  | ok b =>
    obtain ⟨hresult, rfl⟩ := Prod.mk.inj hattempt
    rw [Option.some.inj (Except.ok.inj hresult)]
  | error error =>
    dsimp only at hattempt
    split at hattempt
    · cases hattempt
    · cases hattempt

end Procedure

section Save

variable {file : Location} {found : Found} {existing merged writes : Entries} {world after : World}

/-- **A save** writes the settings to the file, merges them into those in memory and counts them. -/
theorem succeeds_save (hsave : Succeeds (save file found existing writes) world merged after) :
    merged = existing.merge writes ∧
      ∃ count, Succeeds (writeSettings (.ofRoot file) writes) world.disk count after.disk ∧
        after.tally = world.tally.add count writes.keys ∧
          after.terminal.input = world.terminal.input := by
  unfold save at hsave
  obtain ⟨count, _, hchange, hsave⟩ := succeeds_bind_iff.mp hsave
  obtain ⟨disk, hwrite, rfl⟩ := succeeds_change_iff.mp hchange
  obtain ⟨_, _, hmodify, hsave⟩ := succeeds_bind_iff.mp hsave
  obtain rfl := succeeds_modify_iff.mp hmodify
  obtain ⟨_, _, hget, hsave⟩ := succeeds_bind_iff.mp hsave
  obtain ⟨rfl, rfl⟩ := succeeds_get_iff.mp hget
  obtain ⟨_, _, hdisplay, hsave⟩ := succeeds_bind_iff.mp hsave
  obtain rfl := succeeds_display_iff.mp hdisplay
  obtain ⟨rfl, rfl⟩ := succeeds_pure_iff.mp hsave
  exact ⟨rfl, count, hwrite, rfl, rfl⟩

/-- A save fails only as its write does. -/
theorem fails_save {error : Error} (hsave : Fails (save file found existing writes) world error after) :
    ∃ disk, Fails (writeSettings (.ofRoot file) writes) world.disk error disk ∧
      after = { world with disk := disk } := by
  simp only [save, fails_bind_iff, not_fails_modify, not_fails_get, not_fails_display, not_fails_pure,
    and_false, exists_false, or_false] at hsave
  exact fails_change_iff.mp hsave

/-- Where the write succeeds, the save does. -/
theorem exists_succeeds_save {count : Nat} {disk : Disk}
    (hwrite : Succeeds (writeSettings (.ofRoot file) writes) world.disk count disk) :
    ∃ after, Succeeds (save file found existing writes) world (existing.merge writes) after ∧
      after.disk = disk ∧ after.tally = world.tally.add count writes.keys := by
  obtain ⟨after, hdisplay, hdisk, htally, -⟩ := exists_succeeds_display
    { world with disk := disk, tally := world.tally.add count writes.keys }
    (savedLine (writes.toList.all fun pair => existing.get? pair.1 == some pair.2)
      (world.tally.add count writes.keys).saved (reconcile found (existing.merge writes)))
  refine ⟨after, succeeds_bind_iff.mpr ⟨count, { world with disk := disk },
    succeeds_change_iff.mpr ⟨disk, hwrite, rfl⟩, ?_⟩, hdisk, htally⟩
  refine succeeds_bind_iff.mpr ⟨(), _, succeeds_modify_iff.mpr rfl, ?_⟩
  refine succeeds_bind_iff.mpr ⟨_, _, succeeds_get_iff.mpr ⟨rfl, rfl⟩, ?_⟩
  exact succeeds_bind_iff.mpr ⟨(), after, hdisplay, succeeds_pure_iff.mpr ⟨rfl, rfl⟩⟩

end Save

/-! ### A session with values -/

/-- A value that is more than blanks and can be read back from a file. -/
structure IsFilling (text : String) : Prop where
  notBlank : Text.isAllBlank text.toList = false
  cr_not_mem : '\r' ∉ text.toList

def FillsOne (names : List String) (batch : Entries) : Prop :=
  ∃ key ∈ names, ∃ text, batch = OrderedMap.ofList [(key, text)] ∧ IsFilling text

section Batches

variable {names : List String} {batches : List Entries} {existing : Entries} {key : String}

theorem isSet_merge_of_fillsOne {batch : Entries} (hbatch : FillsOne names batch)
    (hkey : isSet existing key = true ∨ key ∈ batch.keys) :
    isSet (existing.merge batch) key = true := by
  obtain ⟨name, -, text, rfl, htext⟩ := hbatch
  unfold isSet
  rw [OrderedMap.get?_merge]
  by_cases hname : name = key
  · have hget : (OrderedMap.ofList [(name, text)]).get? key = some text := by
      simp [OrderedMap.get?, OrderedMap.ofList, OrderedMap.insertMany, putPair, hname]
    rw [hget, Option.some_or, Option.any_some, htext.notBlank]
    rfl
  · have hget : (OrderedMap.ofList [(name, text)]).get? key = none := by
      simp [OrderedMap.get?, OrderedMap.ofList, OrderedMap.insertMany, putPair, hname]
    rw [hget, Option.none_or]
    rcases hkey with hset | hmem
    · exact hset
    · exact absurd (List.mem_singleton.mp hmem).symm hname

/-- After all batches, what was set still is, and so are the keys of the batches. -/
theorem isSet_foldl_merge (hbatches : ∀ batch ∈ batches, FillsOne names batch)
    (hkey : isSet existing key = true ∨ ∃ batch ∈ batches, key ∈ batch.keys) :
    isSet (batches.foldl OrderedMap.merge existing) key = true := by
  induction batches generalizing existing with
  | nil => simpa using hkey
  | cons batch rest ih =>
    have hbatch := hbatches batch List.mem_cons_self
    refine ih (fun other hother => hbatches other (List.mem_cons_of_mem batch hother)) ?_
    rcases hkey with hset | ⟨other, hother, hmem⟩
    · exact .inl (isSet_merge_of_fillsOne hbatch (.inl hset))
    · rcases List.mem_cons.mp hother with rfl | hother
      · exact .inl (isSet_merge_of_fillsOne hbatch (.inr hmem))
      · exact .inr ⟨other, hother, hmem⟩

theorem mem_keys_foldl_merge (hbatches : ∀ batch ∈ batches, FillsOne names batch)
    (hkey : key ∈ (batches.foldl OrderedMap.merge existing).keys) :
    key ∈ existing.keys ∨ key ∈ names := by
  refine (OrderedMap.mem_keys_foldl_merge.mp hkey).imp_right ?_
  rintro ⟨batch, hbatch, hmem⟩
  obtain ⟨name, hname, text, rfl, -⟩ := hbatches batch hbatch
  rwa [List.mem_singleton.mp hmem]

theorem isReadBack_of_fillsOne (hnames : ∀ name ∈ names, IsWritableKey name) {batch : Entries}
    (hbatch : FillsOne names batch) : IsReadBack batch := by
  obtain ⟨name, hname, text, rfl, htext⟩ := hbatch
  refine ⟨?_, ?_⟩
  · intro key hkey
    rw [List.mem_singleton.mp hkey]
    exact hnames name hname
  · intro pair hpair
    rw [List.mem_singleton.mp hpair]
    exact htext.cr_not_mem

end Batches

section Session

variable {names : List String} {found : Found} {target : Location} {session last : Session}
  {world after : World} {key : String} {existing : Entries} {answers : List Response}

def IsValue (response : Response) : Prop := ∃ text, response = .value text ∧ IsFilling text

/-- A session in which every answer is saved in the file at `target`. -/
abbrev Asks (names : List String) (found : Found) (target : Location) :
    Session → World → List Response → Session → World → Prop :=
  Session.Runs names found (fun question => talk (askValue question)) (save target found)

theorem reads_of_talk_askValue (question : Question) (world : World) (response : Response)
    (after : World) (htalk : Succeeds (talk (askValue question)) world response after) :
    after.terminal.input.length < world.terminal.input.length := by
  obtain ⟨terminal, hasked, rfl⟩ := succeeds_talk_iff.mp htalk
  exact reads_askValue question hasked

theorem input_of_save (existing writes : Entries) (world : World) (merged : Entries) (after : World)
    (hsave : Succeeds (save target found existing writes) world merged after) :
    after.terminal.input.length ≤ world.terminal.input.length := by
  obtain ⟨-, _, -, -, hinput⟩ := succeeds_save hsave
  exact (congrArg List.length hinput).le

/-- The answers of a session decide how it is run, since every question takes a line. -/
theorem succeeds_run_iff_asks {rounds : Nat} (hrounds : world.terminal.input.length < rounds) :
    Succeeds (Session.run names found (fun question => talk (askValue question)) (save target found)
        rounds session) world last after ↔
      ∃ answers, Asks names found target session world answers last after :=
  Session.succeeds_run_iff reads_of_talk_askValue input_of_save hrounds

theorem stepOf_value (text : String) :
    Session.stepOf names session key (.value text) =
      Step.next session.index names.length (OrderedMap.ofList [(key, text)]) 0 := rfl

/-- A value is written to the file at once. -/
theorem write_of_answer {text : String}
    (hanswer : Session.Answers names found (fun question => talk (askValue question))
      (save target found) session world key (.value text) existing after) :
    (∃ count, Succeeds (writeSettings (.ofRoot target) (OrderedMap.ofList [(key, text)])) world.disk
      count after.disk) ∧
      ∀ name ∈ after.tally.keys, name ∈ world.tally.keys ∨ name = key := by
  obtain ⟨-, asked, hask, hsave⟩ := hanswer
  obtain ⟨hdisk, htally⟩ := disk_of_talk hask
  have hwrites : (OrderedMap.ofList [(key, text)]).isEmpty = false := rfl
  unfold Session.saveStep at hsave
  rw [stepOf_value, Step.next, hwrites, if_neg Bool.false_ne_true] at hsave
  obtain ⟨-, count, hwrite, hcounted, -⟩ := succeeds_save hsave
  rw [hdisk] at hwrite
  refine ⟨⟨count, hwrite⟩, fun name hname => ?_⟩
  rw [hcounted, htally, Tally.add, addNewKeys, mem_foldl_addNew] at hname
  exact hname.imp_right List.mem_singleton.mp

/-- From one state to the other, values are written to the file one by one, each for one of the names.
None of `wanted` is left out, and no other names are counted. -/
def FillsAll (names : List String) (target : Location) (wanted : List String)
    (world after : World) : Prop :=
  ∃ (batches : List Entries) (counts : List Nat),
    Succeeds (batches.mapM (writeSettings (.ofRoot target))) world.disk counts after.disk ∧
      (∀ batch ∈ batches, FillsOne names batch) ∧
      (∀ name ∈ wanted, ∃ batch ∈ batches, name ∈ batch.keys) ∧
      ∀ name ∈ after.tally.keys, name ∈ world.tally.keys ∨ name ∈ names

theorem fillsAll_nil (world : World) : FillsAll names target [] world world :=
  ⟨[], [], succeeds_pure_iff.mpr ⟨rfl, rfl⟩, by simp, by simp, fun _ => .inl⟩

theorem FillsAll.cons {wanted : List String} {middle : World} {text : String}
    (hkey : key ∈ names) (htext : IsFilling text)
    (hanswer : Session.Answers names found (fun question => talk (askValue question))
      (save target found) session world key (.value text) existing middle)
    (hrest : FillsAll names target wanted middle after) :
    FillsAll names target (key :: wanted) world after := by
  obtain ⟨⟨count, hwrite⟩, htally⟩ := write_of_answer hanswer
  obtain ⟨batches, counts, hrun, hbatches, hkeys, hlater⟩ := hrest
  refine ⟨OrderedMap.ofList [(key, text)] :: batches, count :: counts, ?_, ?_, ?_, ?_⟩
  · exact succeeds_mapM_cons_iff.mpr ⟨count, _, counts, hwrite, hrun, rfl⟩
  · exact List.forall_mem_cons.mpr ⟨⟨key, hkey, text, rfl, htext⟩, hbatches⟩
  · intro name hname
    rcases List.mem_cons.mp hname with rfl | hname
    · exact ⟨_, List.mem_cons_self, List.mem_singleton_self name⟩
    · obtain ⟨batch, hbatch, hmem⟩ := hkeys name hname
      exact ⟨batch, List.mem_cons_of_mem _ hbatch, hmem⟩
  · intro name hname
    rcases hlater name hname with hname | hname
    · rcases htally name hname with hknown | rfl
      · exact .inl hknown
      · exact .inr hkey
    · exact .inr hname

/-- **A session with values alone** is a run of writes: one for each variable from the present one
on. -/
theorem fillsAll_of_asks (hasks : Asks names found target session world answers last after)
    (hvalues : ∀ answer ∈ answers, IsValue answer) :
    FillsAll names target (names.drop session.index) world after := by
  induction hasks with
  | ended hname =>
    rw [List.drop_eq_nil_of_le (List.getElem?_eq_none_iff.mp hname)]
    exact fillsAll_nil _
  | @final session world after key response existing hanswer hdone =>
    obtain ⟨text, rfl, htext⟩ := hvalues response List.mem_cons_self
    obtain ⟨hindex, hkey⟩ := List.getElem?_eq_some_iff.mp hanswer.name
    have hlast : names.length ≤ session.index + 1 := by
      have hdone' : (names.length : Int) ≤ session.index + 1 := by simpa [stepOf_value, Step.next]
        using hdone
      omega
    rw [List.drop_eq_getElem_cons hindex, List.drop_eq_nil_of_le hlast, hkey]
    exact (fillsAll_nil after).cons (List.mem_of_getElem? hanswer.name) htext hanswer
  | @next session last world middle after key response existing answers hanswer hdone hrest ih =>
    obtain ⟨text, rfl, htext⟩ := hvalues response List.mem_cons_self
    obtain ⟨hindex, hkey⟩ := List.getElem?_eq_some_iff.mp hanswer.name
    have hafter : (session.after (Session.stepOf names session key (.value text)) existing).index =
        session.index + 1 := by
      simp only [Session.after, hdone, Bool.false_eq_true, if_false]
      rfl
    have hlater := ih fun answer hanswer => hvalues answer (List.mem_cons_of_mem _ hanswer)
    rw [hafter] at hlater
    rw [List.drop_eq_getElem_cons hindex, hkey]
    exact hlater.cons (List.mem_of_getElem? hanswer.name) htext hanswer

end Session

end EnvFill.Command
