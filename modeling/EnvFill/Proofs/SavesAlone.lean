import EnvFill.Proofs.DiskChanges
import EnvFill.Proofs.Fillings

/-!
# Questions save and do no more

While values are asked for, there are conversations and saves. All saves succeed but perhaps the last,
which ends the questions. So nothing on the disk changes but the file that is saved in, and only if a save
succeeds; one that fails may leave directories above the file.
-/

namespace EnvFill.Command

open Procedure Storage Node EnvFile Fill Project Screen

variable {α β : Type} {target : Location} {found : Found} {start world after last : World}
  {disk : Disk} {saves : List Entries} {existing writes : Entries} {names : List String}

/-- From `start`, conversations and successful saves in the file at `target` lead to the world. -/
inductive Reaches (target : Location) (found : Found) (start : World) : List Entries → World → Prop where
  | here : Reaches target found start [] start
  | talk {saves : List Entries} {world : World} (terminal : Terminal)
      (hreaches : Reaches target found start saves world) :
      Reaches target found start saves { world with terminal := terminal }
  | save {saves : List Entries} {world after : World} {existing writes merged : Entries}
      (hreaches : Reaches target found start saves world) (hwrites : writes.isEmpty = false)
      (hsave : Succeeds (save target found existing writes) world merged after) :
      Reaches target found start (saves ++ [writes]) after

/-- How questions end: where conversations and saves have led, or with a save that fails there. -/
inductive Ends (target : Location) (found : Found) (last : World) : Except Error α → World → Prop where
  | answered {a : α} : Ends target found last (.ok a) last
  | unanswered : Ends target found last (.error .endOfInput) last
  | failed {existing writes : Entries} {error : Error} {after : World} (hwrites : writes.isEmpty = false)
      (hsave : Fails (save target found existing writes) last error after) :
      Ends target found last (.error error) after

def AsksAndSaves (target : Location) (found : Found) (action : Procedure α) : Prop :=
  ∀ (start world : World) (saves : List Entries), Reaches target found start saves world →
    ∃ more last, Reaches target found start more last ∧
      Ends target found last (outcome action world).1 (outcome action world).2

theorem asksAndSaves_pure (a : α) : AsksAndSaves target found (pure a : Procedure α) :=
  fun _ _ _ hreaches => ⟨_, _, hreaches, .answered⟩

theorem AsksAndSaves.bind {action : Procedure α} {next : α → Procedure β}
    (haction : AsksAndSaves target found action)
    (hnext : ∀ a before after, Succeeds action before a after → AsksAndSaves target found (next a)) :
    AsksAndSaves target found (action >>= next) := by
  intro start world saves hreaches
  obtain ⟨more, last, hlast, hends⟩ := haction start world saves hreaches
  rw [outcome_bind]
  rcases houtcome : outcome action world with ⟨result, after⟩
  rw [houtcome] at hends
  cases hends with
  | answered => exact hnext _ world after houtcome start after more hlast
  | unanswered => exact ⟨more, after, hlast, .unanswered⟩
  | failed hwrites hsave => exact ⟨more, last, hlast, .failed hwrites hsave⟩

theorem asksAndSaves_talk (dialogue : Dialogue α) : AsksAndSaves target found (talk dialogue) := by
  intro start world saves hreaches
  refine ⟨saves, _, hreaches.talk (outcome dialogue world.terminal).2, ?_⟩
  rw [outcome_talk]
  cases (outcome dialogue world.terminal).1 with
  | ok a => exact .answered
  | error error => exact .unanswered

theorem asksAndSaves_get : AsksAndSaves target found (get : Procedure World) :=
  fun _ _ _ hreaches => ⟨_, _, hreaches, .answered⟩

theorem asksAndSaves_save (hwrites : writes.isEmpty = false) :
    AsksAndSaves target found (save target found existing writes) := by
  intro start world saves hreaches
  rcases succeeds_or_fails (save target found existing writes) world with
    ⟨merged, after, hsave⟩ | ⟨error, after, hsave⟩
  · rw [hsave]
    exact ⟨_, after, hreaches.save hwrites hsave, .answered⟩
  · have hfailed := hsave
    rw [hsave]
    exact ⟨saves, world, hreaches, .failed hwrites hfailed⟩

/-- **A session** asks and saves: every round does. -/
theorem asksAndSaves_run (rounds : Nat) (session : Session) :
    AsksAndSaves target found (Session.run names found (fun question => talk (askValue question))
      (save target found) rounds session) := by
  induction rounds generalizing session with
  | zero => exact asksAndSaves_pure session
  | succ rounds ih =>
    cases hname : names[session.index]? with
    | none =>
      rw [Session.run, hname]
      exact asksAndSaves_pure session
    | some key =>
      rw [Session.run_of_some hname]
      refine (asksAndSaves_talk _).bind fun response _ _ _ => AsksAndSaves.bind ?_ fun existing _ _ _ => ?_
      · unfold Session.saveStep
        split
        · exact asksAndSaves_pure _
        · rename_i hwrites
          exact asksAndSaves_save (by simpa using hwrites)
      · split
        · exact asksAndSaves_pure _
        · exact ih _

theorem not_succeeds_display_none {events : List Event} {a : α} {terminal later : Terminal} :
    ¬Succeeds (do Dialogue.display events; return none : Dialogue (Option α)) terminal (some a)
      later := by
  intro hsome
  obtain ⟨_, _, -, hnone⟩ := succeeds_bind_iff.mp hsome
  cases (succeeds_pure_iff.mp hnone).1

/-- Settings that are confirmed are some. -/
theorem isEmpty_of_confirmPaste {values : Entries} {terminal later : Terminal}
    (hconfirm : Succeeds confirmPaste terminal (some values) later) : values.isEmpty = false := by
  unfold confirmPaste at hconfirm
  obtain ⟨text, _, -, hconfirm⟩ := succeeds_bind_iff.mp hconfirm
  split at hconfirm
  · exact absurd hconfirm not_succeeds_display_none
  dsimp only at hconfirm
  split at hconfirm
  · exact absurd hconfirm not_succeeds_display_none
  rename_i hempty
  obtain ⟨_, _, -, hconfirm⟩ := succeeds_bind_iff.mp hconfirm
  obtain ⟨yes, _, -, hconfirm⟩ := succeeds_bind_iff.mp hconfirm
  split at hconfirm
  · obtain ⟨heq, -⟩ := succeeds_pure_iff.mp hconfirm
    obtain rfl := Option.some.inj heq
    simpa using hempty
  · exact absurd hconfirm not_succeeds_display_none

/-- **The questions of a folder** are conversations and saves. -/
theorem asksAndSaves_ask (plan : Plan) : AsksAndSaves plan.target plan.found plan.ask := by
  unfold Plan.ask
  split
  · refine (asksAndSaves_talk startSession).bind fun _ _ _ _ => ?_
    refine asksAndSaves_get.bind fun _ _ _ _ => ?_
    exact (asksAndSaves_run _ _).bind fun _ _ _ _ => asksAndSaves_pure ()
  · refine (asksAndSaves_talk confirmPaste).bind fun values before after hvalues => ?_
    cases values with
    | none => exact asksAndSaves_pure ()
    | some values =>
      obtain ⟨terminal, hconfirm, -⟩ := succeeds_talk_iff.mp hvalues
      exact (asksAndSaves_save (isEmpty_of_confirmPaste hconfirm)).bind fun _ _ _ _ =>
        asksAndSaves_pure ()

def savedKeys (saves : List Entries) : List String :=
  saves.foldl (fun keys writes => addNewKeys keys writes.keys) []

theorem savedKeys_concat (saves : List Entries) (writes : Entries) :
    savedKeys (saves ++ [writes]) = addNewKeys (savedKeys saves) writes.keys := by
  rw [savedKeys, List.foldl_append]
  rfl

/-- What is counted are the keys of the saves that succeeded. -/
theorem Reaches.keys_eq (hreaches : Reaches target found start saves world)
    (hstart : start.tally = .start) : world.tally.keys = savedKeys saves := by
  induction hreaches with
  | here => rw [hstart]; rfl
  | talk terminal hreaches ih => exact ih
  | save hreaches hwrites hsave ih =>
    obtain ⟨-, count, -, htally, -⟩ := succeeds_save hsave
    rw [savedKeys_concat, htally, Tally.add, ih]

theorem addNewKeys_ne_nil (keys : List String) (hwrites : writes.isEmpty = false) :
    addNewKeys keys writes.keys ≠ [] := by
  obtain ⟨pair, hpair⟩ : ∃ pair, pair ∈ writes.toList := by
    cases hpairs : writes.toList with
    | nil =>
      rw [OrderedMap.isEmpty, hpairs] at hwrites
      cases hwrites
    | cons pair rest => exact ⟨pair, List.mem_cons_self⟩
  have hkey : pair.1 ∈ addNewKeys keys writes.keys := by
    rw [addNewKeys, mem_foldl_addNew]
    exact .inr (List.mem_map_of_mem hpair)
  exact List.ne_nil_of_mem hkey

/-- Every save has keys. -/
theorem Reaches.savedKeys_eq_nil_iff (hreaches : Reaches target found start saves world) :
    savedKeys saves = [] ↔ saves = [] := by
  induction hreaches with
  | here => exact iff_of_true rfl rfl
  | talk terminal hreaches ih => exact ih
  | save hreaches hwrites hsave ih =>
    rw [savedKeys_concat]
    exact iff_of_false (addNewKeys_ne_nil _ hwrites) (by simp)

/-- **Saves that succeed** change their file. -/
theorem Reaches.changesOnly (hreaches : Reaches target found start saves world)
    (hnames : ∀ name ∈ target, IsName name) (hfree : IsLinkFree target start.disk.top) :
    ChangesOnly (fun place => saves ≠ [] ∧ place = target)
      (fun place => saves ≠ [] ∧ IsAbove place target) start.disk world.disk := by
  induction hreaches with
  | here => exact .refl _ _ _
  | talk terminal hreaches ih => exact ih
  | @save saves world after existing writes merged hreaches hwrites hsave ih =>
    obtain ⟨-, count, hwrite, -⟩ := succeeds_save hsave
    have hchanges := changesOnly_of_succeeds_writeSettings hnames (ih.isLinkFree hfree) hwrite
    have hmore : saves ++ [writes] ≠ [] := by simp
    refine ChangesOnly.trans (ih.mono ?_ ?_) (hchanges.mono ?_ ?_)
    · exact fun place hplace => ⟨hmore, hplace.2⟩
    · exact fun place _ hplace => ⟨hmore, hplace.2⟩
    · exact fun place hplace => ⟨hmore, hplace⟩
    · exact fun place _ hplace => ⟨hmore, hplace⟩

/-- Whether questions were ended by a save that failed. Besides saves, only a line that is wanted and not
there ends them. -/
def IsFailure (ending : Except Error α) : Prop := ∃ error, ending = .error error ∧ error ≠ .endOfInput

theorem Ends.tally_eq {ending : Except Error α} (hends : Ends target found last ending after) :
    after.tally = last.tally := by
  cases hends with
  | answered => rfl
  | unanswered => rfl
  | failed hwrites hsave =>
    obtain ⟨_, -, rfl⟩ := fails_save hsave
    rfl

/-- A save that fails makes directories at most. -/
theorem Ends.changesOnly {ending : Except Error α} (hends : Ends target found last ending after)
    (hnames : ∀ name ∈ target, IsName name) (hfree : IsLinkFree target last.disk.top) :
    ChangesOnly (fun _ => False) (fun place => IsFailure ending ∧ IsAbove place target) last.disk
      after.disk := by
  cases hends with
  | answered => exact .refl _ _ _
  | unanswered => exact .refl _ _ _
  | failed hwrites hsave =>
    obtain ⟨disk, hwrite, rfl⟩ := fails_save hsave
    obtain ⟨hchanges, herror⟩ := changesOnly_of_fails_writeSettings hnames hfree hwrite
    exact hchanges.mono (fun _ => id) fun place _ hplace => ⟨⟨_, rfl, herror⟩, hplace⟩

end EnvFill.Command
