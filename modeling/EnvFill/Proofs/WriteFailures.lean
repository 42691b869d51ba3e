import EnvFill.Proofs.ChangedFiles
import EnvFill.Proofs.ProperPlaces

/-!
# Writes that fail

A write fails just where something is in its way or its path is too long. Where something is in its way it
leaves everything as it was, on the disk and in memory; where the path is too long it leaves no more than
directories that it has made on the way.
-/

namespace EnvFill.Storage

open Node

/-- Something above the place is there and is no directory. -/
def IsBlocked (disk : Disk) (place : Location) : Prop :=
  ∃ front node, IsAbove front place ∧ disk.top.get? front = some node ∧ node.isDir = false

variable {node : Node} {disk : Disk} {place : Location}

theorem hasRoom_of_forall_isAbove
    (habove : ∀ front child, IsAbove front place → node.get? front = some child → child.isDir = true) :
    HasRoom place node := by
  induction place generalizing node with
  | nil => trivial
  | cons name rest ih =>
    have hdir := habove [] node ⟨List.nil_prefix, (List.cons_ne_nil name rest).symm⟩ rfl
    cases node with
    | file bytes => cases hdir
    | link target => cases hdir
    | dir entries =>
      rw [HasRoom]
      cases hlookup : entries.lookup name with
      | none => exact hasRoom_emptyDir rest
      | some child =>
        refine ih fun front below hfront hbelow => habove (name :: front) below ?_ ?_
        · exact ⟨List.cons_prefix_cons.mpr ⟨rfl, hfront.1⟩, fun heq => hfront.2 (List.cons.inj heq).2⟩
        · rw [get?, Node.entries, hlookup]
          exact hbelow

theorem isBlocked_iff : IsBlocked disk place ↔ ¬HasRoom place disk.top := by
  constructor
  · rintro ⟨front, node, ⟨⟨back, rfl⟩, hne⟩, hget, hfile⟩ hroom
    have hback : back ≠ [] := fun hnil => hne (by rw [hnil, List.append_nil])
    obtain ⟨entries, rfl⟩ := exists_dir_of_hasRoom hback hroom hget
    cases hfile
  · intro hroom
    by_contra hblocked
    refine hroom (hasRoom_of_forall_isAbove fun front child hfront hget => ?_)
    by_contra hfile
    exact hblocked ⟨front, child, hfront, hget, by simpa using hfile⟩

end EnvFill.Storage

namespace EnvFill.Project

open Storage EnvFile Fill Command Node

variable {disk after : Disk} {file : Pathname} {place : Location} {entries : Entries}
  {content : Option (List UInt8)} {bytes : List UInt8} {keys : List String} {error : Error}

/-! ### Writing at a place -/

theorem fails_writeSettings_iff (hplace : disk.resolve file = .ok place) :
    Fails (writeSettings file entries) disk error after ↔
      contentAt disk (.ofRoot place) = .error error ∧ after = disk ∨
        ∃ content, contentAt disk (.ofRoot place) = .ok content ∧
          Fails (writeWhole (.ofRoot place) (setEntries entries content)) disk error after := by
  simp only [writeSettings, fails_bind_iff, Edit.fails_look_iff, Edit.succeeds_look_iff, hplace,
    followed_eq_ok_iff, not_fails_pure, and_false, exists_false, or_false]
  constructor
  · rintro (⟨herror, -⟩ | ⟨_, _, ⟨hfound, rfl⟩, ⟨herror, rfl⟩ | ⟨content, _, ⟨hread, rfl⟩, hwhole⟩⟩)
    · cases herror
    · obtain rfl := Except.ok.inj hfound
      exact .inl ⟨herror, rfl⟩
    · obtain rfl := Except.ok.inj hfound
      exact .inr ⟨content, hread, hwhole⟩
  · rintro (⟨herror, rfl⟩ | ⟨content, hread, hwhole⟩)
    · exact .inr ⟨place, after, ⟨rfl, rfl⟩, .inl ⟨herror, rfl⟩⟩
    · exact .inr ⟨place, disk, ⟨rfl, rfl⟩, .inr ⟨content, disk, ⟨hread, rfl⟩, hwhole⟩⟩

theorem succeeds_writeSettings_iff {count : Nat} (hplace : disk.resolve file = .ok place) :
    Succeeds (writeSettings file entries) disk count after ↔
      ∃ content, contentAt disk (.ofRoot place) = .ok content ∧
        Succeeds (writeWhole (.ofRoot place) (setEntries entries content)) disk () after ∧
          count = entries.size := by
  simp only [writeSettings, succeeds_bind_iff, Edit.succeeds_look_iff, succeeds_pure_iff, hplace,
    followed_eq_ok_iff]
  constructor
  · rintro ⟨_, _, ⟨hfound, rfl⟩, content, _, ⟨hread, rfl⟩, ⟨⟩, _, hwhole, rfl, rfl⟩
    obtain rfl := Except.ok.inj hfound
    exact ⟨content, hread, hwhole, rfl⟩
  · rintro ⟨content, hread, hwhole, rfl⟩
    exact ⟨place, disk, ⟨rfl, rfl⟩, content, disk, ⟨hread, rfl⟩, (), after, hwhole, rfl, rfl⟩

theorem fails_syncTemplate_iff (hplace : disk.resolve file = .ok place) :
    Fails (syncTemplate file keys) disk error after ↔
      contentAt disk (.ofRoot place) = .error error ∧ after = disk ∨
        ∃ content, contentAt disk (.ofRoot place) = .ok content ∧ missingKeys content keys ≠ [] ∧
          Fails (writeWhole (.ofRoot place) (addKeys content (missingKeys content keys))) disk error
            after := by
  simp only [syncTemplate, fails_bind_iff, Edit.fails_look_iff, Edit.succeeds_look_iff, hplace,
    followed_eq_ok_iff]
  constructor
  · rintro (⟨herror, -⟩ | ⟨_, _, ⟨hfound, rfl⟩, ⟨herror, rfl⟩ | ⟨content, _, ⟨hread, rfl⟩, hadd⟩⟩)
    · cases herror
    · obtain rfl := Except.ok.inj hfound
      exact .inl ⟨herror, rfl⟩
    · obtain rfl := Except.ok.inj hfound
      refine .inr ⟨content, hread, ?_⟩
      split at hadd
      · exact absurd hadd not_fails_pure
      · rename_i hmissing
        simp only [fails_bind_iff, not_fails_pure, and_false, exists_false, or_false] at hadd
        exact ⟨hmissing, hadd⟩
  · rintro (⟨herror, rfl⟩ | ⟨content, hread, hmissing, hwhole⟩)
    · exact .inr ⟨place, after, ⟨rfl, rfl⟩, .inl ⟨herror, rfl⟩⟩
    · refine .inr ⟨place, disk, ⟨rfl, rfl⟩, .inr ⟨content, disk, ⟨hread, rfl⟩, ?_⟩⟩
      split
      · rename_i hnone
        exact absurd hnone hmissing
      · exact fails_bind_iff.mpr (.inl hwhole)

def IsInTheWay (disk : Disk) (place : Location) : Prop := IsDirAt disk place ∨ IsBlocked disk place

structure LeavesAlone (disk : Disk) (place : Location) (after : Disk) : Prop where
  changes : ChangesOnly (fun _ => False) (IsAbove · place) disk after
  same : IsInTheWay disk place → after = disk

theorem leavesAlone_self (disk : Disk) (place : Location) : LeavesAlone disk place disk :=
  ⟨.refl _ _ _, fun _ => rfl⟩

/-- A file can be looked at just where the path of its place can, and it is no directory. -/
theorem contentAt_eq_error_iff : contentAt disk file = .error error ↔
    followed (disk.find file) = .error error ∨
      (∃ entries, disk.find file = .ok (some (.dir entries))) ∧ error = .notWritten file .isDirectory := by
  unfold contentAt
  rw [except_bind_eq_error_iff]
  refine or_congr_right ?_
  simp only [followed_eq_ok_iff]
  constructor
  · rintro ⟨found, hfound, herror⟩
    split at herror
    · rename_i entries
      exact ⟨⟨entries, hfound⟩, (Except.error.inj herror).symm⟩
    · cases herror
  · rintro ⟨⟨entries, hfound⟩, rfl⟩
    exact ⟨_, hfound, rfl⟩

theorem exists_find_of_contentAt (hread : contentAt disk file = .ok content) :
    ∃ found, disk.find file = .ok found := by
  obtain ⟨found, hfound, -⟩ := except_bind_eq_ok_iff.mp hread
  exact ⟨found, followed_eq_ok_iff.mp hfound⟩

theorem leavesAlone_of_fails_writeWhole (hnames : ∀ name ∈ place, IsName name)
    (hfree : IsLinkFree place disk.top) (hzero : (Pathname.ofRoot place).hasZero = false)
    (hread : contentAt disk (.ofRoot place) = .ok content)
    (hwrite : Fails (writeWhole (.ofRoot place) bytes) disk error after) :
    LeavesAlone disk place after := by
  obtain ⟨cause, hreplace, -⟩ := Edit.fails_mapError_iff.mp hwrite
  have hmade := mayHaveMade_of_fails_replaceFile hnames hfree hreplace
  refine ⟨hmade.changesOnly.mono (fun _ => id) fun _ => isAbove_of_prefix_dropLast, ?_⟩
  rintro (⟨entries, hdir⟩ | hblocked)
  · obtain ⟨found, hfind⟩ := exists_find_of_contentAt hread
    have hget := get?_of_contentAt hnames hfree (Disk.checkText_of_find hzero hfind) hread
    rw [hdir] at hget
    cases content <;> cases hget
  · exact (hmade.mono (List.dropLast_prefix place)).eq_of_not_hasRoom (isBlocked_iff.mp hblocked)

/-- The error of a write names its file. -/
theorem exists_cause_of_fails_writeWhole (hnames : ∀ name ∈ place, IsName name)
    (hzero : (Pathname.ofRoot place).hasZero = false)
    (hwrite : Fails (writeWhole (.ofRoot place) bytes) disk error after) :
    ∃ cause, error = .notWritten (.ofRoot place) cause := by
  obtain ⟨cause, hreplace, rfl⟩ := Edit.fails_mapError_iff.mp hwrite
  have hcause := ne_zeroCharacter_of_fails_replaceFile hnames hzero hreplace
  refine ⟨cause, ?_⟩
  unfold Error.ofWrite
  split
  · exact absurd rfl hcause
  · rfl

theorem exists_fails_writeWhole_iff (hnames : ∀ name ∈ place, IsName name)
    (hfree : IsLinkFree place disk.top) :
    (∃ error after, Fails (writeWhole (.ofRoot place) bytes) disk error after) ↔
      ¬CanBeWritten disk place := by
  have hcan : (∃ after, Succeeds (writeWhole (.ofRoot place) bytes) disk () after) ↔
      CanBeWritten disk place := by
    simp only [succeeds_writeWhole_iff, succeeds_replaceFile_iff hnames hfree, exists_and_left,
      exists_eq, and_true]
  rw [← hcan]
  constructor
  · rintro ⟨error, after, hfails⟩ ⟨other, hwrite⟩
    exact absurd (hwrite.symm.trans hfails) (by simp)
  · intro hcannot
    rcases succeeds_or_fails (writeWhole (.ofRoot place) bytes) disk with ⟨⟨⟩, after, hwrite⟩ | hfails
    · exact absurd ⟨after, hwrite⟩ hcannot
    · exact hfails

theorem not_canBeWritten_iff :
    ¬CanBeWritten disk place ↔ IsInTheWay disk place ∨ ¬HasShortPath place := by
  constructor
  · intro hcannot
    by_contra hclear
    rw [not_or, IsInTheWay, not_or, not_not, isBlocked_iff, not_not] at hclear
    obtain ⟨⟨hnotDir, hroom⟩, hshort⟩ := hclear
    exact hcannot ⟨hshort, hroom, hnotDir⟩
  · rintro ((⟨entries, hdir⟩ | hblocked) | hlong) hcan
    · exact hcan.notDir ⟨entries, hdir⟩
    · exact isBlocked_iff.mp hblocked hcan.room
    · exact hlong hcan.short

/-! ### Settings on the disk and in memory -/

theorem outcome_onDisk {ε σ α : Type} (edit : Edit ε α) (disk : Disk) (held : σ) :
    outcome (onDisk edit) (disk, held) = ((outcome edit disk).1, (outcome edit disk).2, held) := rfl

theorem succeeds_writeHeld_iff {held later : Entries} {count : Nat} :
    Succeeds (writeHeld file entries) (disk, held) count (after, later) ↔
      Succeeds (writeSettings file entries) disk count after ∧ later = held.merge entries := by
  unfold writeHeld
  rw [succeeds_bind_iff]
  constructor
  · rintro ⟨found, ⟨made, same⟩, hwrite, hrest⟩
    obtain ⟨hresult, hstate⟩ := Prod.mk.inj ((outcome_onDisk _ _ _).symm.trans hwrite)
    obtain ⟨hmade, rfl⟩ := Prod.mk.inj hstate
    obtain ⟨_, _, hmodify, hpure⟩ := succeeds_bind_iff.mp hrest
    obtain rfl := succeeds_modify_iff.mp hmodify
    obtain ⟨rfl, hlast⟩ := succeeds_pure_iff.mp hpure
    obtain ⟨rfl, rfl⟩ := Prod.mk.inj hlast
    exact ⟨Prod.ext hresult hmade, rfl⟩
  · rintro ⟨hwrite, rfl⟩
    refine ⟨count, (after, held), ?_, ?_⟩
    · rw [Succeeds, outcome_onDisk, hwrite]
    · refine succeeds_bind_iff.mpr ⟨(), (after, held.merge entries), succeeds_modify_iff.mpr rfl, ?_⟩
      exact succeeds_pure_iff.mpr ⟨rfl, rfl⟩

theorem fails_writeHeld_iff {held later : Entries} :
    Fails (writeHeld file entries) (disk, held) error (after, later) ↔
      Fails (writeSettings file entries) disk error after ∧ later = held := by
  unfold writeHeld
  simp only [fails_bind_iff, not_fails_modify, not_fails_pure, and_false, exists_false, or_false]
  rw [Fails, outcome_onDisk, Fails]
  constructor
  · intro hwrite
    obtain ⟨hresult, hstate⟩ := Prod.mk.inj hwrite
    obtain ⟨hafter, rfl⟩ := Prod.mk.inj hstate
    exact ⟨Prod.ext hresult hafter, rfl⟩
  · rintro ⟨hwrite, rfl⟩
    rw [hwrite]

/-! ### When writes fail, and what they leave -/

/-- A save keeps the settings in memory as such a write does. -/
theorem exists_succeeds_save_iff {target : Location} {found : Found} {existing merged writes : Entries}
    {world : World} :
    (∃ after, Succeeds (save target found existing writes) world merged after) ↔
      ∃ count after, Succeeds (writeHeld (.ofRoot target) writes) (world.disk, existing) count
        (after, merged) := by
  simp only [succeeds_writeHeld_iff]
  constructor
  · rintro ⟨after, hsave⟩
    obtain ⟨rfl, count, hwrite, -⟩ := succeeds_save hsave
    exact ⟨count, after.disk, hwrite, rfl⟩
  · rintro ⟨count, disk, hwrite, rfl⟩
    obtain ⟨after, hsave, -⟩ := exists_succeeds_save hwrite
    exact ⟨after, hsave⟩

theorem exists_fails_writeSettings_iff (hproper : IsProperPlace disk place)
    (hplace : disk.resolve file = .ok place) :
    (∃ path cause after, Fails (writeSettings file entries) disk (.notWritten path cause) after) ↔
      (∃ found, disk.find (.ofRoot place) = .ok found) ∧ (IsInTheWay disk place ∨ ¬HasShortPath place) := by
  obtain ⟨hnames, hfree, hzero⟩ := hproper
  rw [← not_canBeWritten_iff]
  constructor
  · rintro ⟨path, cause, after, hfails⟩
    rcases (fails_writeSettings_iff hplace).mp hfails with ⟨hread, -⟩ | ⟨content, hread, hwhole⟩
    · rcases contentAt_eq_error_iff.mp hread with herror | ⟨⟨below, hfind⟩, -⟩
      · cases hfind : disk.find (.ofRoot place) <;> rw [hfind] at herror <;> cases herror
      · have hget := Disk.find_ofRoot hnames hfree hfind (Disk.checkText_of_find hzero hfind)
        exact ⟨⟨_, hfind⟩, fun hcan => hcan.notDir ⟨below, hget.symm⟩⟩
    · exact ⟨exists_find_of_contentAt hread, (exists_fails_writeWhole_iff hnames hfree).mp ⟨_, _, hwhole⟩⟩
  · rintro ⟨⟨found, hfind⟩, hcannot⟩
    cases hread : contentAt disk (.ofRoot place) with
    | error error =>
      have hfails : Fails (writeSettings file entries) disk error disk :=
        (fails_writeSettings_iff hplace).mpr (.inl ⟨hread, rfl⟩)
      rcases contentAt_eq_error_iff.mp hread with herror | ⟨-, rfl⟩
      · rw [hfind] at herror
        cases herror
      · exact ⟨_, _, _, hfails⟩
    | ok content =>
      obtain ⟨error, after, hwhole⟩ : ∃ error after,
          Fails (writeWhole (.ofRoot place) (setEntries entries content)) disk error after :=
        (exists_fails_writeWhole_iff hnames hfree).mpr hcannot
      obtain ⟨cause, rfl⟩ := exists_cause_of_fails_writeWhole hnames hzero hwhole
      exact ⟨_, cause, after, (fails_writeSettings_iff hplace).mpr (.inr ⟨content, hread, hwhole⟩)⟩

theorem exists_resolve_of_fails_writeSettings {path : Pathname} {cause : DiskError}
    (hwrite : Fails (writeSettings file entries) disk (.notWritten path cause) after) :
    ∃ place, disk.resolve file = .ok place := by
  cases hplace : disk.resolve file with
  | ok place => exact ⟨place, rfl⟩
  | error error =>
    rcases fails_bind_iff.mp hwrite with hlook | ⟨place, _, hlook, -⟩
    · rw [Edit.fails_look_iff, hplace] at hlook
      cases hlook.1
    · rw [Edit.succeeds_look_iff, hplace] at hlook
      cases hlook.1

/-- What a write that succeeds does to the disk: it puts a file at the place. -/
structure Writes (disk : Disk) (place : Location) (after : Disk) : Prop where
  changes : ChangesOnly (· = place) (IsAbove · place) disk after
  written : ∃ bytes, after.top.get? place = some (.file bytes)

theorem writes_of_succeeds_writeSettings {count : Nat} (hproper : IsProperPlace disk place)
    (hplace : disk.resolve file = .ok place)
    (hwrite : Succeeds (writeSettings file entries) disk count after) : Writes disk place after := by
  obtain ⟨content, hread, hwhole, -⟩ := (succeeds_writeSettings_iff hplace).mp hwrite
  refine ⟨changesOnly_of_succeeds_writeWhole hproper.names hproper.free hread hwhole, ?_⟩
  obtain ⟨hcan, rfl⟩ :=
    (succeeds_replaceFile_iff hproper.names hproper.free).mp (succeeds_writeWhole_iff.mp hwhole)
  exact ⟨setEntries entries content, get?_put_self hcan.room⟩

theorem leavesAlone_of_fails_writeSettings (hproper : IsProperPlace disk place)
    (hplace : disk.resolve file = .ok place)
    (hwrite : Fails (writeSettings file entries) disk error after) : LeavesAlone disk place after := by
  rcases (fails_writeSettings_iff hplace).mp hwrite with ⟨-, rfl⟩ | ⟨content, hread, hwhole⟩
  · exact leavesAlone_self after place
  · exact leavesAlone_of_fails_writeWhole hproper.names hproper.free hproper.zero hread hwhole

theorem leavesAlone_of_fails_syncTemplate (hproper : IsProperPlace disk place)
    (hplace : disk.resolve file = .ok place)
    (hsync : Fails (syncTemplate file keys) disk error after) : LeavesAlone disk place after := by
  rcases (fails_syncTemplate_iff hplace).mp hsync with ⟨-, rfl⟩ | ⟨content, hread, -, hwhole⟩
  · exact leavesAlone_self after place
  · exact leavesAlone_of_fails_writeWhole hproper.names hproper.free hproper.zero hread hwhole

/-- **Writes fail just where something is in the way or the path is too long**, if what lies at the path
can be looked at. Then they leave all as it was, but for directories made on the way if the path is too
long; and a write that succeeds changes its file, with such directories, and the settings in memory. -/
theorem writes_fail_just_where (hdisk : IsFileSystem disk) (file : Pathname) (entries held : Entries)
    (keys : List String) :
    ((∃ path cause after, Fails (writeHeld file entries) (disk, held) (.notWritten path cause) after) ↔
      ∃ place, disk.resolve file = .ok place ∧ (∃ found, disk.find (.ofRoot place) = .ok found) ∧
        (IsInTheWay disk place ∨ ¬HasShortPath place)) ∧
    ∀ place, disk.resolve file = .ok place →
      (∀ error after later, Fails (writeHeld file entries) (disk, held) error (after, later) →
        LeavesAlone disk place after ∧ later = held) ∧
      (∀ count after later, Succeeds (writeHeld file entries) (disk, held) count (after, later) →
        Writes disk place after ∧
          ∀ key, later.get? key = (entries.get? key).or (held.get? key)) ∧
      ∀ error after, Fails (syncTemplate file keys) disk error after → LeavesAlone disk place after := by
  constructor
  · constructor
    · rintro ⟨path, cause, ⟨after, later⟩, hwrite⟩
      have hfails := (fails_writeHeld_iff.mp hwrite).1
      obtain ⟨place, hplace⟩ := exists_resolve_of_fails_writeSettings hfails
      have hproper := hdisk.isProperPlace hplace
      exact ⟨place, hplace, (exists_fails_writeSettings_iff hproper hplace).mp ⟨path, cause, after, hfails⟩⟩
    · rintro ⟨place, hplace, hway⟩
      have hproper := hdisk.isProperPlace hplace
      obtain ⟨path, cause, after, hfails⟩ := (exists_fails_writeSettings_iff hproper hplace).mpr hway
      exact ⟨path, cause, (after, held), fails_writeHeld_iff.mpr ⟨hfails, rfl⟩⟩
  · intro place hplace
    have hproper := hdisk.isProperPlace hplace
    refine ⟨fun error after later hwrite => ?_, fun count after later hwrite => ?_,
      fun error after hsync => ?_⟩
    · obtain ⟨hfails, rfl⟩ := fails_writeHeld_iff.mp hwrite
      exact ⟨leavesAlone_of_fails_writeSettings hproper hplace hfails, rfl⟩
    · obtain ⟨hsucceeds, rfl⟩ := succeeds_writeHeld_iff.mp hwrite
      exact ⟨writes_of_succeeds_writeSettings hproper hplace hsucceeds, OrderedMap.get?_merge held entries⟩
    · exact leavesAlone_of_fails_syncTemplate hproper hplace hsync

theorem isFileSystem_lonelyProject : IsFileSystem lonelyProject where
  cycles := hasNoLinkCycles_of_linkCount rfl
  links here target hlink :=
    absurd hlink (isLinkFree_of_linkCount rfl here here List.prefix_rfl target)
  names := List.forall_mem_nil _
  zero := List.forall_mem_nil _
  free := isLinkFree_of_linkCount rfl _

/-- A file below a file is not written, and nothing changes, on the disk or in memory. -/
theorem writes_fail_just_where_file_is_above :
    IsFileSystem lonelyProject ∧
      ∃ path cause, Fails
        (writeHeld (.ofRoot ["app", ".env.local.example", ".env"])
          (OrderedMap.ofList [("API_KEY", "x"), ("MODE", "new")]))
        (lonelyProject, OrderedMap.ofList [("MODE", "old")]) (.notWritten path cause)
        (lonelyProject, OrderedMap.ofList [("MODE", "old")]) := by
  have hplace : lonelyProject.resolve (.ofRoot ["app", ".env.local.example", ".env"]) =
      .ok ["app", ".env.local.example", ".env"] :=
    Disk.resolve_ofRoot (by decide) (isLinkFree_of_linkCount rfl _) (by decide)
  have hfind : lonelyProject.find (.ofRoot ["app", ".env.local.example", ".env"]) = .ok none :=
    Disk.find_ofRoot_of_none (by decide) (isLinkFree_of_linkCount rfl _) (by decide) (by decide) rfl
  have hway : IsInTheWay lonelyProject ["app", ".env.local.example", ".env"] :=
    .inr ⟨["app", ".env.local.example"], _, ⟨⟨[".env"], rfl⟩, by decide⟩, rfl, rfl⟩
  obtain ⟨hfails, hleaves⟩ := writes_fail_just_where isFileSystem_lonelyProject
    (.ofRoot ["app", ".env.local.example", ".env"])
    (OrderedMap.ofList [("API_KEY", "x"), ("MODE", "new")]) (OrderedMap.ofList [("MODE", "old")]) []
  obtain ⟨path, cause, ⟨after, later⟩, hwrite⟩ := hfails.mpr ⟨_, hplace, ⟨none, hfind⟩, .inl hway⟩
  obtain ⟨halone, rfl⟩ := (hleaves _ hplace).1 _ _ _ hwrite
  obtain rfl := halone.same hway
  exact ⟨isFileSystem_lonelyProject, path, cause, hwrite⟩

/-- **A long name fails too.** There is nothing in the way of the file, but its name leaves no room for
that of a draft, and the directory that was made for it stays. -/
theorem write_of_long_name_fails :
    ¬∀ (disk : Disk) (file : Pathname) (entries held : Entries) (place : Location), IsFileSystem disk →
      disk.resolve file = .ok place →
        ((∃ path cause after, Fails (writeHeld file entries) (disk, held) (.notWritten path cause) after) ↔
            IsInTheWay disk place) ∧
          ∀ path cause after,
            Fails (writeHeld file entries) (disk, held) (.notWritten path cause) after →
              after = (disk, held) := by
  intro hall
  have hwrite : Fails (writeHeld (.ofRoot lonelyTarget) ∅) (lonelyProject, ∅) _ (lonelyProjectAfter, ∅) :=
    fails_writeHeld_iff.mpr ⟨fails_writeSettings_lonelyProject ∅, rfl⟩
  have hfails := (hall lonelyProject _ ∅ ∅ _ isFileSystem_lonelyProject resolve_lonelyTarget).1
  rcases hfails.mp ⟨_, _, _, hwrite⟩ with ⟨entries, hdir⟩ | hblocked
  · have hnone : lonelyProject.top.get? lonelyTarget = none := rfl
    exact absurd (hnone.symm.trans hdir) (Option.some_ne_none _).symm
  · have hroom : HasRoom lonelyTarget lonelyProject.top := trivial
    exact isBlocked_iff.mp hblocked hroom

end EnvFill.Project
