import EnvFill.Proofs.Outcome
import EnvFill.Proofs.Places
import EnvFill.Proofs.Results
import EnvFill.Storage.Write

/-!
# Writing a file whole

A file that is written at a place without links is put there, and nothing else changes but for the
directories on the way. Whether it can be written does not depend on its bytes.
-/

namespace EnvFill.Storage

open Node Edit

variable {disk after : Disk} {path : Pathname} {place found : Location} {bytes : List UInt8}

theorem Pathname.parent_ofRoot_concat (front : Location) (name : String) :
    Pathname.parent (.ofRoot (front ++ [name])) = .ofRoot front := by
  rw [Pathname.parent, Pathname.ofRoot, List.dropLast_concat, Pathname.ofRoot]

theorem Pathname.name?_ofRoot_concat (front : Location) (name : String) :
    Pathname.name? (.ofRoot (front ++ [name])) = some name := by
  rw [Pathname.name?, Pathname.ofRoot, List.getLast?_concat]

def IsDirAt (disk : Disk) (place : Location) : Prop :=
  ∃ entries, disk.top.get? place = some (.dir entries)

theorem any_isDir_iff : (disk.top.get? place).any Node.isDir = true ↔ IsDirAt disk place := by
  unfold IsDirAt
  rcases disk.top.get? place with _ | (bytes | target | entries) <;> simp [Node.isDir]

namespace Disk

@[simp]
theorem top_put (disk : Disk) (place : Location) (node : Node) :
    (disk.put place node).top = Node.put node place disk.top := rfl

@[simp]
theorem current_put (disk : Disk) (place : Location) (node : Node) :
    (disk.put place node).current = disk.current := rfl

theorem put_put (disk : Disk) (place : Location) (new old : Node) :
    (disk.put place old).put place new = disk.put place new := by
  rw [put, top_put, Node.put_put]
  rfl

theorem put_put_dir {front : Location} (hnone : disk.top.get? front = none) (back : Location)
    (node : Node) :
    (disk.put front (.dir [])).put (front ++ back) node = disk.put (front ++ back) node := by
  rw [put, top_put, Node.put_put_dir hnone]
  rfl

theorem locate?_eq_ok_iff :
    disk.locate? path = .ok found ↔
      checkText path = .ok () ∧
        locateFrom? disk.top maxLinks (disk.startOf path) path.parts = .ok found :=
  except_check_eq_ok_iff

theorem locateDirectory?_eq_ok_iff :
    disk.locateDirectory? path = .ok found ↔
      checkText path = .ok () ∧
        locateFrom? disk.top maxLinks (disk.startOf path) (path.parts ++ ["."]) = .ok found :=
  except_check_eq_ok_iff

/-- The path of a place that no link leads to leads there, if something is there. -/
theorem locate?_ofRoot_eq_ok_iff (hnames : ∀ name ∈ place, IsName name)
    (hfree : IsLinkFree place disk.top) :
    disk.locate? (.ofRoot place) = .ok found ↔
      checkText (.ofRoot place) = .ok () ∧ found = place ∧
        (∀ name ∈ place, isTooLong name = false) ∧ (place = [] ∨ (disk.top.get? place).isSome) := by
  have hfree' : IsLinkFree ([] ++ place) disk.top := hfree
  rw [locate?_eq_ok_iff]
  exact and_congr_right fun _ => locateFrom?_eq_ok_iff hnames hfree'

/-- It leads nowhere if it is no path, if nothing is there or if a name is too long. -/
theorem locate?_ofRoot_error {error : DiskError} (hnames : ∀ name ∈ place, IsName name)
    (hfree : IsLinkFree place disk.top) (herror : disk.locate? (.ofRoot place) = .error error) :
    checkText (.ofRoot place) = .error error ∨
      (error = .missing ∨ error = .notDirectory) ∧ disk.top.get? place = none ∨
        error = .nameTooLong ∧ ∃ name ∈ place, isTooLong name = true := by
  have hfree' : IsLinkFree ([] ++ place) disk.top := hfree
  unfold locate? at herror
  cases htext : checkText (.ofRoot place) with
  | error cause =>
    rw [htext] at herror
    exact .inl (congrArg _ (Except.error.inj herror))
  | ok =>
    rw [htext] at herror
    exact .inr (locateFrom?_error hnames hfree' herror)

/-- The path of a place that no link leads to does not lead through links. -/
theorem locate?_ofRoot_ne_tooManyLinks (hnames : ∀ name ∈ place, IsName name)
    (hfree : IsLinkFree place disk.top) :
    disk.locate? (.ofRoot place) ≠ .error .tooManyLinks := by
  intro hmany
  rcases locate?_ofRoot_error hnames hfree hmany with htext | ⟨hcause, -⟩ | ⟨hcause, -⟩
  · unfold checkText at htext
    split at htext
    · cases htext
    · split at htext <;> cases htext
  · simp at hcause
  · simp at hcause

/-- What a path to a place leads to, if anything. -/
theorem find_ofRoot (hnames : ∀ name ∈ place, IsName name) (hfree : IsLinkFree place disk.top)
    {node : Option Node} (hfind : disk.find (.ofRoot place) = .ok node)
    (htext : checkText (.ofRoot place) = .ok ()) : node = disk.top.get? place := by
  unfold find findPlace at hfind
  cases hlocate : disk.locate? (.ofRoot place) with
  | ok found =>
    obtain ⟨-, rfl, -⟩ := (locate?_ofRoot_eq_ok_iff hnames hfree).mp hlocate
    rw [hlocate] at hfind
    exact (Except.ok.inj hfind).symm
  | error error =>
    rw [hlocate] at hfind
    rcases locate?_ofRoot_error hnames hfree hlocate with hcause | ⟨-, hnone⟩ | ⟨rfl, -⟩
    · exact absurd (htext.symm.trans hcause) (by simp)
    · dsimp only at hfind
      split at hfind
      · rw [← Except.ok.inj hfind]
        exact hnone.symm
      · exact absurd hfind (by simp [Except.map])
    · exact absurd hfind (by simp [DiskError.isAbsence, Except.map])

/-- Nothing is found along short names that lead to nothing. -/
theorem find_ofRoot_of_none (hnames : ∀ name ∈ place, IsName name)
    (hfree : IsLinkFree place disk.top) (htext : checkText (.ofRoot place) = .ok ())
    (hshort : ∀ name ∈ place, isTooLong name = false) (hnone : disk.top.get? place = none) :
    disk.find (.ofRoot place) = .ok none := by
  unfold find findPlace
  cases hlocate : disk.locate? (.ofRoot place) with
  | ok found =>
    obtain ⟨-, rfl, -⟩ := (locate?_ofRoot_eq_ok_iff hnames hfree).mp hlocate
    simp [Except.map, hnone]
  | error error =>
    rcases locate?_ofRoot_error hnames hfree hlocate with hcause | ⟨rfl | rfl, -⟩ | ⟨-, name, hname, hlong⟩
    · exact absurd (htext.symm.trans hcause) (by simp)
    · rfl
    · rfl
    · exact absurd (hshort name hname) (by simp [hlong])

theorem isDirAt_of_isDir (hnames : ∀ name ∈ place, IsName name)
    (hfree : IsLinkFree place disk.top) (hdir : disk.isDir (.ofRoot place) = .ok true) :
    IsDirAt disk place := by
  unfold isDir find findPlace at hdir
  cases hlocate : disk.locate? (.ofRoot place) with
  | ok found =>
    obtain ⟨-, rfl, -⟩ := (locate?_ofRoot_eq_ok_iff hnames hfree).mp hlocate
    rw [hlocate] at hdir
    exact any_isDir_iff.mp (Except.ok.inj hdir)
  | error error =>
    rw [hlocate] at hdir
    dsimp only at hdir
    split at hdir <;> simp [Except.map] at hdir

/-- The place of the entry that a path to a place ends in. -/
theorem entryPlace?_ofRoot (hnames : ∀ name ∈ place, IsName name)
    (hfree : IsLinkFree place disk.top) {entry : Location}
    (hentry : disk.entryPlace? (.ofRoot place) = .ok (some entry)) :
    entry = place ∧ checkText (.ofRoot place) = .ok () ∧
      (∀ name ∈ place, isTooLong name = false) ∧ place ≠ [] ∧
        (place.dropLast = [] ∨ ∃ entries, disk.top.get? place.dropLast = some (.dir entries)) := by
  unfold entryPlace? at hentry
  cases htext : checkText (.ofRoot place) with
  | error error => simp [htext, bind, Except.bind] at hentry
  | ok =>
    cases hparent : disk.locateDirectory? (Pathname.parent (.ofRoot place)) with
    | error error => simp [htext, hparent, bind, Except.bind] at hentry
    | ok parent =>
      rw [htext, hparent] at hentry
      cases place using List.reverseRecOn with
      | nil => simp [Pathname.name?, Pathname.ofRoot, bind, Except.bind, pure, Except.pure] at hentry
      | append_singleton front name =>
        have hname := hnames name (by simp)
        have hlocate := (locateDirectory?_eq_ok_iff.mp hparent).2
        rw [Pathname.parent_ofRoot_concat] at hlocate
        have hfree' : IsLinkFree ([] ++ front) disk.top := hfree.of_front (List.prefix_append _ _)
        obtain ⟨hfound, hshort, hdir⟩ := locateFrom?_directory
          (fun other hother => hnames other (List.mem_append_left _ hother)) hfree' hlocate
        simp only [Pathname.name?_ofRoot_concat, bind, Except.bind, if_neg hname.2.2] at hentry
        by_cases hlong : isTooLong name = true
        · simp [hlong, throw, throwThe, MonadExceptOf.throw] at hentry
        · rw [if_neg hlong] at hentry
          have heq : parent ++ [name] = entry := Option.some.inj (Except.ok.inj hentry)
          refine ⟨by rw [← heq, hfound, List.nil_append], rfl, ?_, by simp, by simpa using hdir⟩
          intro other hother
          rcases List.mem_append.mp hother with hother | hother
          · exact hshort other hother
          · rw [List.mem_singleton.mp hother]
            simpa using hlong

end Disk

/-! ### What is put -/

section Put

variable {cause error : DiskError} {node : Node}

/-- The last step of an edit: a node is put at its place, unless what is there refuses it. -/
theorem outcome_putUnless (refuses : Option Node → Bool) (cause : DiskError) (place : Location)
    (node : Node) (disk : Disk) :
    outcome (do
        if refuses ((← get).top.get? place) then throw cause
        putAt place node : Edit DiskError Unit) disk =
      if refuses (disk.top.get? place) then (.error cause, disk)
      else (.ok (), disk.put place node) := by
  have hget : outcome (get : Edit DiskError Disk) disk = (.ok disk, disk) := rfl
  rw [outcome_bind, hget]
  dsimp only
  split <;> rfl

theorem succeeds_putUnless_iff (refuses : Option Node → Bool) :
    Succeeds (do
        if refuses ((← get).top.get? place) then throw cause
        putAt place node : Edit DiskError Unit) disk () after ↔
      refuses (disk.top.get? place) = false ∧ after = disk.put place node := by
  rw [Succeeds, outcome_putUnless]
  split
  · next hrefuses => simp [hrefuses]
  · next haccepts => simp [haccepts, eq_comm]

theorem fails_putUnless_iff (refuses : Option Node → Bool) :
    Fails (do
        if refuses ((← get).top.get? place) then throw cause
        putAt place node : Edit DiskError Unit) disk error after ↔
      refuses (disk.top.get? place) = true ∧ error = cause ∧ after = disk := by
  rw [Fails, outcome_putUnless]
  split
  · next hrefuses => simp [hrefuses, eq_comm]
  · next haccepts => simp [haccepts]

end Put

/-! ### Directories on the way -/

theorem succeeds_makeDirectory_iff :
    Succeeds (makeDirectory path) disk () after ↔
      ∃ place, disk.entryPlace? path = .ok (some place) ∧ disk.top.get? place = none ∧
        after = disk.put place (.dir []) := by
  simp only [makeDirectory, succeeds_bind_iff, succeeds_look_iff]
  constructor
  · rintro ⟨entry, _, ⟨hentry, rfl⟩, hput⟩
    cases entry with
    | none => exact absurd hput not_succeeds_throw
    | some place =>
      obtain ⟨hnone, hafter⟩ := (succeeds_putUnless_iff Option.isSome).mp hput
      exact ⟨place, hentry, by simpa using hnone, hafter⟩
  · rintro ⟨place, hentry, hnone, rfl⟩
    refine ⟨some place, disk, ⟨hentry, rfl⟩, (succeeds_putUnless_iff Option.isSome).mpr ⟨?_, rfl⟩⟩
    rw [hnone, Option.isSome_none]

/-- Making a directory fails where there is no place for it, or something is there. -/
theorem fails_makeDirectory_iff {error : DiskError} :
    Fails (makeDirectory path) disk error after ↔
      after = disk ∧ (disk.entryPlace? path = .error error ∨
        ∃ entry, disk.entryPlace? path = .ok entry ∧
          (∀ place ∈ entry, (disk.top.get? place).isSome = true) ∧ error = .alreadyExists) := by
  simp only [makeDirectory, fails_bind_iff, fails_look_iff, succeeds_look_iff]
  constructor
  · rintro (⟨hentry, rfl⟩ | ⟨entry, _, ⟨hentry, rfl⟩, hput⟩)
    · exact ⟨rfl, .inl hentry⟩
    cases entry with
    | none =>
      obtain ⟨rfl, rfl⟩ := fails_throw_iff.mp hput
      exact ⟨rfl, .inr ⟨none, hentry, by simp, rfl⟩⟩
    | some place =>
      obtain ⟨hsome, rfl, rfl⟩ := (fails_putUnless_iff Option.isSome).mp hput
      exact ⟨rfl, .inr ⟨some place, hentry, by simpa using hsome, rfl⟩⟩
  · rintro ⟨rfl, hentry | ⟨entry, hentry, hall, rfl⟩⟩
    · exact .inl ⟨hentry, rfl⟩
    · refine .inr ⟨entry, after, ⟨hentry, rfl⟩, ?_⟩
      cases entry with
      | none => exact fails_throw_iff.mpr ⟨rfl, rfl⟩
      | some place => exact (fails_putUnless_iff Option.isSome).mpr ⟨hall place rfl, rfl, rfl⟩

theorem succeeds_makeDirectory (hnames : ∀ name ∈ place, IsName name)
    (hfree : IsLinkFree place disk.top)
    (hmake : Succeeds (makeDirectory (.ofRoot place)) disk () after) :
    disk.top.get? place = none ∧ after = disk.put place (.dir []) := by
  obtain ⟨entry, hentry, hnone, hafter⟩ := succeeds_makeDirectory_iff.mp hmake
  obtain ⟨rfl, -⟩ := Disk.entryPlace?_ofRoot hnames hfree hentry
  exact ⟨hnone, hafter⟩

theorem fails_makeDirectory {error : DiskError}
    (hmake : Fails (makeDirectory path) disk error after) : after = disk :=
  (fails_makeDirectory_iff.mp hmake).1

theorem succeeds_ensureDirectory_iff :
    Succeeds (ensureDirectory path) disk () after ↔
      Succeeds (makeDirectory path) disk () after ∨
        ∃ error ≠ .missing, Fails (makeDirectory path) disk error disk ∧ disk.isDir path = .ok true ∧
          after = disk := by
  rw [ensureDirectory, succeeds_tryCatch_iff]
  refine or_congr_right ?_
  constructor
  · rintro ⟨error, found, hmake, hhandle⟩
    obtain rfl := fails_makeDirectory hmake
    split at hhandle
    · simp at hhandle
    · rename_i hpresent
      simp only [succeeds_bind_iff, succeeds_look_iff] at hhandle
      obtain ⟨isDir, _, ⟨hdir, rfl⟩, hhandle⟩ := hhandle
      cases isDir with
      | false => simp at hhandle
      | true => exact ⟨error, hpresent, hmake, hdir, (succeeds_pure_iff.mp hhandle).2.symm⟩
  · rintro ⟨error, hpresent, hmake, hdir, rfl⟩
    refine ⟨error, after, hmake, ?_⟩
    dsimp only
    rw [if_neg hpresent]
    exact succeeds_bind_iff.mpr ⟨true, after, succeeds_look_iff.mpr ⟨hdir, rfl⟩,
      succeeds_pure_iff.mpr ⟨rfl, rfl⟩⟩

/-- A directory that cannot be made is missing above, or is not there as a directory. -/
theorem fails_ensureDirectory_iff {error : DiskError} :
    Fails (ensureDirectory path) disk error after ↔
      after = disk ∧ ∃ other, Fails (makeDirectory path) disk other disk ∧
        (error = other ∧ (other = .missing ∨ disk.isDir path = .ok false) ∨
          other ≠ .missing ∧ disk.isDir path = .error error) := by
  rw [ensureDirectory, fails_tryCatch_iff]
  constructor
  · rintro ⟨other, found, hmake, hhandle⟩
    obtain rfl := fails_makeDirectory hmake
    split at hhandle
    · rename_i hmissing
      simp only [fails_bind_iff, fails_throw_iff, not_succeeds_throw, false_and, exists_false,
        or_false] at hhandle
      exact ⟨hhandle.2.symm, other, hmake, .inl ⟨hhandle.1.symm, .inl hmissing⟩⟩
    · rename_i hpresent
      simp only [fails_bind_iff, fails_look_iff, succeeds_look_iff] at hhandle
      rcases hhandle with ⟨hdir, rfl⟩ | ⟨isDir, _, ⟨hdir, rfl⟩, hhandle⟩
      · exact ⟨rfl, other, hmake, .inr ⟨hpresent, hdir⟩⟩
      cases isDir with
      | false =>
        obtain ⟨rfl, rfl⟩ := fails_throw_iff.mp hhandle
        exact ⟨rfl, _, hmake, .inl ⟨rfl, .inr hdir⟩⟩
      | true => exact absurd hhandle not_fails_pure
  · rintro ⟨rfl, other, hmake, hcause⟩
    refine ⟨other, after, hmake, ?_⟩
    by_cases hmissing : other = .missing
    · obtain ⟨rfl, -⟩ := hcause.resolve_right fun hpresent => hpresent.1 hmissing
      dsimp only
      rw [if_pos hmissing]
      exact fails_bind_iff.mpr (.inl (fails_throw_iff.mpr ⟨rfl, rfl⟩))
    · dsimp only
      rw [if_neg hmissing]
      rcases hcause with ⟨rfl, hdir⟩ | ⟨-, hdir⟩
      · exact fails_bind_iff.mpr (.inr ⟨false, after,
          succeeds_look_iff.mpr ⟨hdir.resolve_left hmissing, rfl⟩, fails_throw_iff.mpr ⟨rfl, rfl⟩⟩)
      · exact fails_bind_iff.mpr (.inl (fails_look_iff.mpr ⟨hdir, rfl⟩))

theorem fails_ensureDirectory {error : DiskError}
    (hensure : Fails (ensureDirectory path) disk error after) : after = disk :=
  (fails_ensureDirectory_iff.mp hensure).1

def IsMade (place : Location) (disk after : Disk) : Prop :=
  (∃ entries, disk.top.get? place = some (.dir entries)) ∧ after = disk ∨
    disk.top.get? place = none ∧ after = disk.put place (.dir [])

theorem succeeds_ensureDirectory (hnames : ∀ name ∈ place, IsName name)
    (hfree : IsLinkFree place disk.top)
    (hensure : Succeeds (ensureDirectory (.ofRoot place)) disk () after) :
    IsMade place disk after := by
  rcases succeeds_ensureDirectory_iff.mp hensure with hmake | ⟨_, -, -, hdir, rfl⟩
  · exact .inr (succeeds_makeDirectory hnames hfree hmake)
  · exact .inl ⟨Disk.isDirAt_of_isDir hnames hfree hdir, rfl⟩

/-- An empty directory where nothing was leaves all links where they are. -/
theorem isLinkFree_put_dir {front : Location} (hfree : IsLinkFree place disk.top)
    (hnone : disk.top.get? front = none) :
    IsLinkFree place (disk.put front (.dir [])).top := by
  intro other hother target hlink
  have hcontent : disk.top.get? front = (none : Option (List UInt8)).map .file := hnone
  have hiff := get?_put_eq_link_iff get?_emptyDir_ne_link (get?_append_ne_link hcontent) other target
  exact hfree other hother target (hiff.mp hlink)

theorem isLinkFree_of_isMade {front : Location} (hfree : IsLinkFree place disk.top)
    (hmade : IsMade front disk after) : IsLinkFree place after.top := by
  rcases hmade with ⟨-, rfl⟩ | ⟨hnone, rfl⟩
  · exact hfree
  · exact isLinkFree_put_dir hfree hnone

theorem succeeds_ensureDirectories (hnames : ∀ name ∈ place, IsName name)
    (hfree : IsLinkFree place disk.top)
    (hensure : Succeeds (ensureDirectories (.ofRoot place)) disk () after) :
    IsMade place disk after := by
  induction place using List.reverseRecOn generalizing after with
  | nil =>
    rw [ensureDirectories] at hensure
    rcases succeeds_tryCatch_iff.mp hensure with hmake | ⟨error, found, -, hhandle⟩
    · exact succeeds_ensureDirectory hnames hfree hmake
    · rw [dif_neg (by simp [Pathname.ofRoot])] at hhandle
      exact absurd hhandle not_succeeds_throw
  | append_singleton front name ih =>
    rw [ensureDirectories] at hensure
    rcases succeeds_tryCatch_iff.mp hensure with hmake | ⟨error, found, hmake, hhandle⟩
    · exact succeeds_ensureDirectory hnames hfree hmake
    obtain rfl := fails_ensureDirectory hmake
    split at hhandle
    · rw [Pathname.parent_ofRoot_concat] at hhandle
      obtain ⟨_, middle, hfront, hlast⟩ := succeeds_bind_iff.mp hhandle
      have hmade := ih (fun other hother => hnames other (List.mem_append_left _ hother))
        (hfree.of_front (List.prefix_append _ _)) hfront
      rcases hmade with ⟨-, rfl⟩ | ⟨hnone, rfl⟩
      · exact succeeds_ensureDirectory hnames hfree hlast
      -- The directory above was made just now, so this one was not there before.
      have hbelow : found.top.get? (front ++ [name]) = none := by
        rw [get?_append, hnone, Option.bind_none]
      refine .inr ⟨hbelow, ?_⟩
      rcases succeeds_ensureDirectory hnames (isLinkFree_put_dir hfree hnone) hlast with
        ⟨⟨entries, hdir⟩, -⟩ | ⟨-, rfl⟩
      · exfalso
        rw [Disk.top_put] at hdir
        by_cases hroom : HasRoom front found.top
        · rw [get?_append, get?_put_self hroom] at hdir
          simp [get?, Node.entries] at hdir
        · rw [put_of_not_hasRoom hroom, hbelow] at hdir
          exact Option.some_ne_none _ hdir.symm
      · exact Disk.put_put_dir hnone [name] (.dir [])
    · exact absurd hhandle not_succeeds_throw

/-! ### The file itself -/

/-- The steps of a write. -/
theorem succeeds_replaceFile_iff_steps :
    Succeeds (replaceFile path bytes) disk () after ↔
      ∃ made entry, Succeeds (ensureDirectories path.parent) disk () made ∧
        made.checkDraft path = .ok () ∧ (∃ node, made.find path = .ok node) ∧
          made.entryPlace? path = .ok (some entry) ∧ ¬IsDirAt made entry ∧
            after = made.put entry (.file bytes) := by
  simp only [replaceFile, succeeds_bind_iff, succeeds_look_iff]
  constructor
  · rintro ⟨_, made, hmake, _, _, ⟨hdraft, rfl⟩, node, _, ⟨hfind, rfl⟩, entry, _, ⟨hentry, rfl⟩, hput⟩
    cases entry with
    | none => exact absurd hput not_succeeds_throw
    | some entry =>
      obtain ⟨hfile, hafter⟩ := (succeeds_putUnless_iff (·.any Node.isDir)).mp hput
      exact ⟨_, entry, hmake, hdraft, ⟨node, hfind⟩, hentry,
        any_isDir_iff.not.mp (Bool.eq_false_iff.mp hfile), hafter⟩
  · rintro ⟨made, entry, hmake, hdraft, ⟨node, hfind⟩, hentry, hfile, rfl⟩
    refine ⟨(), made, hmake, (), made, ⟨hdraft, rfl⟩, node, made, ⟨hfind, rfl⟩, some entry, made,
      ⟨hentry, rfl⟩, (succeeds_putUnless_iff (·.any Node.isDir)).mpr ⟨?_, rfl⟩⟩
    exact Bool.eq_false_iff.mpr (any_isDir_iff.not.mpr hfile)

/-- Why a file cannot be written once its directory is there. -/
inductive RefusesFile (disk : Disk) (path : Pathname) : DiskError → Prop where
  | draft {error : DiskError} (hdraft : disk.checkDraft path = .error error) : RefusesFile disk path error
  | find {error : DiskError} (hdraft : disk.checkDraft path = .ok ())
      (hfind : disk.find path = .error error) : RefusesFile disk path error
  | entry {error : DiskError} {node : Option Node} (hdraft : disk.checkDraft path = .ok ())
      (hfind : disk.find path = .ok node) (hentry : disk.entryPlace? path = .error error) :
      RefusesFile disk path error
  | busy {node : Option Node} (hdraft : disk.checkDraft path = .ok ())
      (hfind : disk.find path = .ok node) (hentry : disk.entryPlace? path = .ok none) :
      RefusesFile disk path .busy
  | directory {node : Option Node} {entry : Location} (hdraft : disk.checkDraft path = .ok ())
      (hfind : disk.find path = .ok node) (hentry : disk.entryPlace? path = .ok (some entry))
      (hdir : IsDirAt disk entry) : RefusesFile disk path .isDirectory

/-- A write fails with the directories on the way, or once they are there, and then changes nothing else.
-/
theorem fails_replaceFile_iff_steps {error : DiskError} :
    Fails (replaceFile path bytes) disk error after ↔
      Fails (ensureDirectories path.parent) disk error after ∨
        Succeeds (ensureDirectories path.parent) disk () after ∧ RefusesFile after path error := by
  simp only [replaceFile, fails_bind_iff, fails_look_iff, succeeds_look_iff]
  constructor
  · rintro (hmake | ⟨_, made, hmake, ⟨hdraft, rfl⟩ | ⟨_, _, ⟨hdraft, rfl⟩, ⟨hfind, rfl⟩ |
      ⟨node, _, ⟨hfind, rfl⟩, ⟨hentry, rfl⟩ | ⟨entry, _, ⟨hentry, rfl⟩, hput⟩⟩⟩⟩)
    · exact .inl hmake
    · exact .inr ⟨hmake, .draft hdraft⟩
    · exact .inr ⟨hmake, .find hdraft hfind⟩
    · exact .inr ⟨hmake, .entry hdraft hfind hentry⟩
    cases entry with
    | none =>
      obtain ⟨rfl, rfl⟩ := fails_throw_iff.mp hput
      exact .inr ⟨hmake, .busy hdraft hfind hentry⟩
    | some entry =>
      obtain ⟨hdir, rfl, rfl⟩ := (fails_putUnless_iff (·.any Node.isDir)).mp hput
      exact .inr ⟨hmake, .directory hdraft hfind hentry (any_isDir_iff.mp hdir)⟩
  · rintro (hmake | ⟨hmake, hrefuses⟩)
    · exact .inl hmake
    refine .inr ⟨(), after, hmake, ?_⟩
    cases hrefuses with
    | draft hdraft => exact .inl ⟨hdraft, rfl⟩
    | find hdraft hfind => exact .inr ⟨(), after, ⟨hdraft, rfl⟩, .inl ⟨hfind, rfl⟩⟩
    | entry hdraft hfind hentry =>
      exact .inr ⟨(), after, ⟨hdraft, rfl⟩, .inr ⟨_, after, ⟨hfind, rfl⟩, .inl ⟨hentry, rfl⟩⟩⟩
    | busy hdraft hfind hentry =>
      exact .inr ⟨(), after, ⟨hdraft, rfl⟩, .inr ⟨_, after, ⟨hfind, rfl⟩, .inr ⟨none, after, ⟨hentry, rfl⟩,
        fails_throw_iff.mpr ⟨rfl, rfl⟩⟩⟩⟩
    | directory hdraft hfind hentry hdir =>
      exact .inr ⟨(), after, ⟨hdraft, rfl⟩, .inr ⟨_, after, ⟨hfind, rfl⟩, .inr ⟨some _, after,
        ⟨hentry, rfl⟩, (fails_putUnless_iff (·.any Node.isDir)).mpr ⟨any_isDir_iff.mpr hdir, rfl, rfl⟩⟩⟩⟩

/-- A file can be put at a place: its names are short enough and there is room for it. -/
structure IsWritable (place : Location) (disk : Disk) : Prop where
  ne_nil : place ≠ []
  text : Disk.checkText (.ofRoot place) = .ok ()
  short : ∀ name ∈ place, isTooLong name = false
  room : HasRoom place disk.top

/-- **What a write does.** -/
theorem succeeds_replaceFile (hnames : ∀ name ∈ place, IsName name)
    (hfree : IsLinkFree place disk.top)
    (hwrite : Succeeds (replaceFile (.ofRoot place) bytes) disk () after) :
    IsWritable place disk ∧ after = disk.put place (.file bytes) := by
  obtain ⟨made, entry, hmake, -, -, hentry, -, hafter⟩ := succeeds_replaceFile_iff_steps.mp hwrite
  have hparent : Pathname.parent (.ofRoot place) = .ofRoot place.dropLast := rfl
  have hfront : place.dropLast <+: place := List.dropLast_prefix place
  rw [hparent] at hmake
  have hmade := succeeds_ensureDirectories
    (fun name hname => hnames name (hfront.subset hname)) (hfree.of_front hfront) hmake
  have hfreeMade := isLinkFree_of_isMade hfree hmade
  obtain ⟨rfl, htext, hshort, hne, hdir⟩ := Disk.entryPlace?_ofRoot hnames hfreeMade hentry
  have hsplit : entry = entry.dropLast ++ [entry.getLast hne] :=
    (List.dropLast_concat_getLast hne).symm
  rcases hmade with ⟨⟨entries, hold⟩, rfl⟩ | ⟨hnone, rfl⟩
  · refine ⟨⟨hne, htext, hshort, ?_⟩, hafter⟩
    rw [hsplit, hasRoom_append, hold]
    exact ⟨hasRoom_of_get? hold, trivial⟩
  · have hroom : HasRoom entry.dropLast disk.top := by
      rcases hdir with hnil | ⟨entries, hdir⟩
      · rw [hnil]
        trivial
      · exact hasRoom_of_get?_put hdir
    refine ⟨⟨hne, htext, hshort, ?_⟩, ?_⟩
    · rw [hsplit, hasRoom_append, hnone]
      exact ⟨hroom, trivial⟩
    · have hput := Disk.put_put_dir hnone [entry.getLast hne] (.file bytes)
      rw [← hsplit] at hput
      rw [hafter, hput]

/-- The bytes of a file do not decide whether it can be written. -/
theorem exists_succeeds_replaceFile {other : List UInt8}
    (hwrite : Succeeds (replaceFile path other) disk () after) (bytes : List UInt8) :
    ∃ after, Succeeds (replaceFile path bytes) disk () after := by
  obtain ⟨made, entry, hmake, hdraft, hfind, hentry, hfile, -⟩ := succeeds_replaceFile_iff_steps.mp hwrite
  exact ⟨_, succeeds_replaceFile_iff_steps.mpr ⟨made, entry, hmake, hdraft, hfind, hentry, hfile, rfl⟩⟩

end EnvFill.Storage
