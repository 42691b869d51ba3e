import EnvFill.Proofs.FollowedLinks
import EnvFill.Proofs.PossibleWrites

/-!
# Places that paths stand for

On a disk as a file system keeps it, a path stands for a place of proper names, and no link leads on from
there. No name in it has the character with code point zero, so it can be written to: a write of such a place
never fails because its path is none at all.
-/

namespace EnvFill.Storage

open Node Edit Text

variable {top : Node} {disk after : Disk} {place goal : Location} {steps : List String} {count : Nat}
  {bytes : List UInt8} {error : DiskError} {path : Pathname}

theorem locateFrom?_ne_zeroCharacter (top : Node) (links : Nat) (place : Location) (steps : List String) :
    locateFrom? top links place steps ≠ .error .zeroCharacter := by
  fun_induction locateFrom? top links place steps <;> simp_all

theorem Disk.checkText_ne_zeroCharacter (hzero : path.hasZero = false) :
    Disk.checkText path ≠ .error .zeroCharacter := by
  unfold Disk.checkText
  rw [hzero, if_neg Bool.false_ne_true]
  split <;> simp

theorem hasZero_parent (hzero : path.hasZero = false) : path.parent.hasZero = false := by
  unfold Pathname.hasZero Pathname.parent at *
  rw [List.any_eq_false] at hzero ⊢
  exact fun part hpart => hzero part ((List.dropLast_prefix _).subset hpart)

theorem Disk.locateDirectory?_ne_zeroCharacter (hzero : path.hasZero = false) :
    disk.locateDirectory? path ≠ .error .zeroCharacter := by
  unfold Disk.locateDirectory?
  rw [Ne, except_bind_eq_error_iff, not_or]
  refine ⟨Disk.checkText_ne_zeroCharacter hzero, ?_⟩
  rintro ⟨_, -, hcause⟩
  exact locateFrom?_ne_zeroCharacter _ _ _ _ hcause

theorem Disk.find_ne_zeroCharacter (disk : Disk) (path : Pathname) :
    disk.find path ≠ .error .zeroCharacter := by
  unfold Disk.find Disk.findPlace
  cases disk.locate? path with
  | ok found => simp [Except.map]
  | error cause => cases cause <;> simp [DiskError.isAbsence, Except.map]

/-- What can be looked at has a path. -/
theorem Disk.checkText_of_find {found : Option Node} (hzero : path.hasZero = false)
    (hfind : disk.find path = .ok found) : Disk.checkText path = .ok () := by
  refine Disk.checkText_eq_ok_iff.mpr ⟨hzero, ?_⟩
  by_contra hlong
  have htext : Disk.checkText path = .error .nameTooLong := by
    unfold Disk.checkText
    rw [hzero, if_neg Bool.false_ne_true, if_pos (not_le.mp hlong)]
  unfold Disk.find Disk.findPlace Disk.locate? at hfind
  rw [htext] at hfind
  cases hfind

theorem Disk.entryPlace?_ne_zeroCharacter (hzero : path.hasZero = false) :
    disk.entryPlace? path ≠ .error .zeroCharacter := by
  unfold Disk.entryPlace?
  rw [Ne, except_bind_eq_error_iff, not_or]
  refine ⟨Disk.checkText_ne_zeroCharacter hzero, ?_⟩
  rintro ⟨_, -, hcause⟩
  rcases except_bind_eq_error_iff.mp hcause with hcause | ⟨parent, -, hcause⟩
  · exact Disk.locateDirectory?_ne_zeroCharacter (hasZero_parent hzero) hcause
  · cases hname : path.name? with
    | none => simp [hname, pure, Except.pure] at hcause
    | some name =>
      rw [hname] at hcause
      dsimp only at hcause
      split at hcause
      · cases hcause
      · split at hcause
        · cases hcause
        · cases hcause

theorem Disk.checkDraft_ne_zeroCharacter (hnames : ∀ name ∈ place, IsName name)
    (hzero : (Pathname.ofRoot place).hasZero = false) :
    disk.checkDraft (.ofRoot place) ≠ .error .zeroCharacter := by
  have hplain : Pathname.withoutParents (Pathname.ofRoot place).parent.parts = place.dropLast :=
    withoutParents_of_isName fun name hname => hnames name ((List.dropLast_prefix _).subset hname)
  have hfolder : (Pathname.ofRoot place.dropLast).hasZero = false := hasZero_parent hzero
  have hname : ((Pathname.ofRoot place).name?.getD "").toList.contains '\x00' = false := by
    cases hlast : (Pathname.ofRoot place).name? with
    | none => rfl
    | some name =>
      exact Bool.eq_false_of_not_eq_true (List.any_eq_false.mp hzero name (List.mem_of_getLast? hlast))
  unfold Disk.checkDraft
  dsimp only
  rw [hplain, hname, if_neg Bool.false_ne_true]
  intro hcause
  split at hcause
  · cases hcause
  · rcases except_bind_eq_error_iff.mp hcause with hcause | ⟨_, -, hcause⟩
    · exact Disk.locateDirectory?_ne_zeroCharacter hfolder hcause
    · split at hcause
      · cases hcause
      · cases hcause

theorem ne_zeroCharacter_of_fails_makeDirectory (hzero : path.hasZero = false)
    (hmake : Fails (makeDirectory path) disk error after) : error ≠ .zeroCharacter := by
  rintro rfl
  obtain ⟨-, hentry | ⟨_, -, -, hexists⟩⟩ := fails_makeDirectory_iff.mp hmake
  · exact Disk.entryPlace?_ne_zeroCharacter hzero hentry
  · cases hexists

theorem ne_zeroCharacter_of_fails_ensureDirectory (hzero : path.hasZero = false)
    (hensure : Fails (ensureDirectory path) disk error after) : error ≠ .zeroCharacter := by
  obtain ⟨-, other, hmake, ⟨rfl, -⟩ | ⟨-, hdir⟩⟩ := fails_ensureDirectory_iff.mp hensure
  · exact ne_zeroCharacter_of_fails_makeDirectory hzero hmake
  · rintro rfl
    exact Disk.find_ne_zeroCharacter disk path (except_map_eq_error_iff.mp hdir)

theorem ne_zeroCharacter_of_fails_ensureDirectories (hzero : path.hasZero = false)
    (hensure : Fails (ensureDirectories path) disk error after) : error ≠ .zeroCharacter := by
  induction path using ensureDirectories.induct generalizing disk error after with
  | case1 path ih =>
    rw [ensureDirectories] at hensure
    obtain ⟨cause, found, hmake, hhandle⟩ := fails_tryCatch_iff.mp hensure
    split at hhandle
    · rename_i hmissing
      rcases fails_bind_iff.mp hhandle with habove | ⟨_, _, -, hlast⟩
      · exact ih cause hmissing (hasZero_parent hzero) habove
      · exact ne_zeroCharacter_of_fails_ensureDirectory hzero hlast
    · rw [← (fails_throw_iff.mp hhandle).1]
      exact ne_zeroCharacter_of_fails_ensureDirectory hzero hmake

/-- A write fails for a zero only if there is one in its path. -/
theorem ne_zeroCharacter_of_fails_replaceFile (hnames : ∀ name ∈ place, IsName name)
    (hzero : (Pathname.ofRoot place).hasZero = false)
    (hwrite : Fails (replaceFile (.ofRoot place) bytes) disk error after) : error ≠ .zeroCharacter := by
  rcases fails_replaceFile_iff_steps.mp hwrite with hmake | ⟨-, hrefuses⟩
  · exact ne_zeroCharacter_of_fails_ensureDirectories (hasZero_parent hzero) hmake
  rintro rfl
  cases hrefuses with
  | draft hdraft => exact Disk.checkDraft_ne_zeroCharacter hnames hzero hdraft
  | find _ hfind => exact Disk.find_ne_zeroCharacter _ _ hfind
  | entry _ _ hentry => exact Disk.entryPlace?_ne_zeroCharacter hzero hentry

/-- The links of the disk lead in no circle, the current directory is a place that no link leads to, and
no character is a zero in what a path is followed along. -/
structure IsFileSystem (disk : Disk) : Prop where
  cycles : HasNoLinkCycles disk.top
  links : ∀ here target, disk.top.get? here = some (.link target) → '\x00' ∉ target.toList
  names : ∀ name ∈ disk.current, IsName name
  zero : ∀ name ∈ disk.current, '\x00' ∉ name.toList
  free : IsLinkFree disk.current disk.top

theorem hasZero_eq_false_iff : path.hasZero = false ↔ ∀ part ∈ path.parts, '\x00' ∉ part.toList := by
  simp [Pathname.hasZero]

theorem zero_not_mem_components {target : String} (hzero : '\x00' ∉ target.toList) :
    ∀ part ∈ components target, '\x00' ∉ part.toList := by
  intro part hpart hmem
  obtain ⟨chars, hchars, rfl⟩ := List.mem_map.mp hpart
  rw [String.toList_ofList] at hmem
  exact hzero (forall_of_mem_splitAtEach hchars _ hmem).1

/-- Where no path that is followed has a zero, none is in the names that it ends at. -/
theorem Follows.zero_not_mem (hfollows : Follows top place steps goal count)
    (hlinks : ∀ here target, top.get? here = some (.link target) → '\x00' ∉ target.toList)
    (hplace : ∀ name ∈ place, '\x00' ∉ name.toList) (hsteps : ∀ step ∈ steps, '\x00' ∉ step.toList) :
    ∀ name ∈ goal, '\x00' ∉ name.toList := by
  induction hfollows with
  | done => exact hplace
  | stay _ _ ih => exact ih hplace (List.forall_mem_cons.mp hsteps).2
  | up _ ih =>
    refine ih (fun name hname => hplace name ((List.dropLast_prefix _).subset hname)) ?_
    exact (List.forall_mem_cons.mp hsteps).2
  | down _ _ _ ih =>
    obtain ⟨hname, hrest⟩ := List.forall_mem_cons.mp hsteps
    exact ih (List.forall_mem_append.mpr ⟨hplace, List.forall_mem_singleton.mpr hname⟩) hrest
  | through _ hlink _ _ ihInner ih =>
    refine ih (ihInner ?_ (zero_not_mem_components (hlinks _ _ hlink))) (List.forall_mem_cons.mp hsteps).2
    exact fun name hname => hplace name ((isPrefix_linkStart _ _).subset hname)

structure IsProperPlace (disk : Disk) (place : Location) : Prop where
  names : ∀ name ∈ place, IsName name
  free : IsLinkFree place disk.top
  zero : (Pathname.ofRoot place).hasZero = false

theorem IsFileSystem.isProperPlace (hdisk : IsFileSystem disk) (hplace : disk.resolve path = .ok place) :
    IsProperPlace disk place := by
  have hstart : disk.startOf path = [] ∨ disk.startOf path = disk.current := ite_eq_or_eq _ _ _
  have hnames : ∀ name ∈ disk.startOf path, IsName name := by
    rcases hstart with heq | heq <;> rw [heq]
    · exact List.forall_mem_nil _
    · exact hdisk.names
  have hfree : IsLinkFree (disk.startOf path) disk.top := by
    rcases hstart with heq | heq <;> rw [heq]
    · exact isLinkFree_nil hdisk.cycles
    · exact hdisk.free
  have hzero : ∀ name ∈ disk.startOf path, '\x00' ∉ name.toList := by
    rcases hstart with heq | heq <;> rw [heq]
    · exact List.forall_mem_nil _
    · exact hdisk.zero
  obtain ⟨count, hfollows⟩ := Disk.exists_follows_of_resolve hdisk.cycles hnames hfree hplace
  refine ⟨hfollows.isName hnames, hfollows.isLinkFree hfree, ?_⟩
  rw [hasZero_eq_false_iff]
  exact hfollows.zero_not_mem hdisk.links hzero (hasZero_eq_false_iff.mp (Disk.resolve_eq_ok hplace).1)

end EnvFill.Storage
