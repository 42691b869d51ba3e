import EnvFill.Proofs.Folders

/-!
# Writes in a folder

A folder that is there needs not be made, and a file of it can be written if its name is not too long
and no directory has it.
-/

namespace EnvFill.Storage

open Node Edit

variable {disk after : Disk} {folder : Location} {entries : List (String × Node)} {name : String}
  {bytes : List UInt8}

theorem Disk.checkText_ne_missing (path : Pathname) : Disk.checkText path ≠ .error .missing := by
  unfold Disk.checkText
  split
  · simp
  · split
    · simp
    · simp

theorem IsDirectory.isDir_eq (hfolder : IsDirectory disk folder entries) :
    disk.isDir (.ofRoot folder) = .ok true := by
  unfold Disk.isDir Disk.find Disk.findPlace
  rw [hfolder.locate?_eq]
  simp [Except.map, hfolder.get_eq, Node.isDir]

theorem IsDirectory.locateDirectory?_eq (hfolder : IsDirectory disk folder entries) :
    disk.locateDirectory? (.ofRoot folder) = .ok folder := by
  have hget : disk.top.get? ([] ++ folder) = some (.dir entries) := hfolder.get_eq
  refine Disk.locateDirectory?_eq_ok_iff.mpr ⟨hfolder.text, ?_⟩
  have hsteps : locateFrom? disk.top maxLinks [] (folder ++ ["."]) = .ok folder := by
    rw [locateFrom?_append_of_dir hfolder.names hfolder.short hget, List.nil_append, locateFrom?,
      if_pos rfl, locateFrom?]
  exact hsteps

/-- What is above a folder is there. -/
theorem IsDirectory.locateDirectory?_parent_ne_missing (hfolder : IsDirectory disk folder entries) :
    disk.locateDirectory? (.ofRoot folder.dropLast) ≠ .error .missing := by
  have hfront : folder.dropLast <+: folder := List.dropLast_prefix folder
  obtain ⟨above, hget⟩ : ∃ above, disk.top.get? ([] ++ folder.dropLast) = some (.dir above) := by
    rcases List.eq_nil_or_concat' folder with rfl | ⟨front, last, rfl⟩
    · exact ⟨entries, hfolder.get_eq⟩
    · obtain ⟨above, habove, -⟩ := exists_dir_of_get?_concat hfolder.get_eq
      exact ⟨above, by simpa using habove⟩
  have hsteps : locateFrom? disk.top maxLinks [] (folder.dropLast ++ ["."]) =
      locateFrom? disk.top maxLinks ([] ++ folder.dropLast) ["."] :=
    locateFrom?_append_of_dir (fun name hname => hfolder.names name (hfront.subset hname))
      (fun name hname => hfolder.short name (hfront.subset hname)) hget
  rw [List.nil_append, locateFrom?, if_pos rfl, locateFrom?] at hsteps
  intro hmissing
  unfold Disk.locateDirectory? at hmissing
  cases htext : Disk.checkText (.ofRoot folder.dropLast) with
  | error error =>
    rw [htext] at hmissing
    obtain rfl := Except.error.inj hmissing
    exact Disk.checkText_ne_missing _ htext
  | ok =>
    rw [htext] at hmissing
    have hfound : locateFrom? disk.top maxLinks [] (folder.dropLast ++ ["."]) = .error .missing :=
      hmissing
    rw [hsteps] at hfound
    exact absurd hfound (by simp)

theorem IsDirectory.entryPlace?_ne_missing (hfolder : IsDirectory disk folder entries) :
    disk.entryPlace? (.ofRoot folder) ≠ .error .missing := by
  have hparent : Pathname.parent (.ofRoot folder) = .ofRoot folder.dropLast := rfl
  intro hmissing
  unfold Disk.entryPlace? at hmissing
  rw [hfolder.text, hparent] at hmissing
  cases habove : disk.locateDirectory? (.ofRoot folder.dropLast) with
  | error error =>
    rw [habove] at hmissing
    obtain rfl : error = .missing := Except.error.inj hmissing
    exact hfolder.locateDirectory?_parent_ne_missing habove
  | ok place =>
    rw [habove] at hmissing
    simp only [bind, Except.bind] at hmissing
    split at hmissing
    · simp [pure, Except.pure] at hmissing
    · split at hmissing
      · simp [pure, Except.pure] at hmissing
      · split at hmissing
        · simp [throw, throwThe, MonadExceptOf.throw] at hmissing
        · simp [pure, Except.pure] at hmissing

/-- A folder that is there is left as it is. -/
theorem IsDirectory.succeeds_ensureDirectory (hfolder : IsDirectory disk folder entries) :
    Succeeds (ensureDirectory (.ofRoot folder)) disk () disk := by
  rcases succeeds_or_fails (makeDirectory (.ofRoot folder)) disk with
    ⟨⟨⟩, after, hmake⟩ | ⟨error, after, hmake⟩
  · have hnone := (succeeds_makeDirectory hfolder.names hfolder.linkFree hmake).1
    rw [hfolder.get_eq] at hnone
    exact absurd hnone (by simp)
  obtain rfl := fails_makeDirectory hmake
  have hpresent : error ≠ .missing := by
    rintro rfl
    obtain ⟨-, hentry | ⟨_, -, -, hexists⟩⟩ := fails_makeDirectory_iff.mp hmake
    · exact hfolder.entryPlace?_ne_missing hentry
    · cases hexists
  exact succeeds_ensureDirectory_iff.mpr (.inr ⟨error, hpresent, hmake, hfolder.isDir_eq, rfl⟩)

theorem IsDirectory.succeeds_ensureDirectories (hfolder : IsDirectory disk folder entries) :
    Succeeds (ensureDirectories (.ofRoot folder)) disk () disk := by
  rw [ensureDirectories]
  exact succeeds_tryCatch_iff.mpr (.inl hfolder.succeeds_ensureDirectory)

/-- A name that a file of a folder can be written under: there is room for it and for its draft. -/
structure HasRoomFor (folder : Location) (name : String) : Prop where
  isName : IsName name
  zero_not_mem : '\x00' ∉ name.toList
  text : Disk.checkText (.ofRoot (folder ++ [name])) = .ok ()
  path_le : (Pathname.ofRoot folder).toString.utf8ByteSize + 1 + name.utf8ByteSize + draftBytes ≤
    maxPathBytes
  name_le : name.utf8ByteSize + draftBytes ≤ maxNameBytes

instance : Decidable (HasRoomFor folder name) :=
  decidable_of_iff (IsName name ∧ '\x00' ∉ name.toList ∧
      Disk.checkText (.ofRoot (folder ++ [name])) = .ok () ∧
        (Pathname.ofRoot folder).toString.utf8ByteSize + 1 + name.utf8ByteSize + draftBytes ≤
          maxPathBytes ∧ name.utf8ByteSize + draftBytes ≤ maxNameBytes)
    ⟨fun ⟨hname, hzero, htext, hpath, hdraft⟩ => ⟨hname, hzero, htext, hpath, hdraft⟩,
      fun ⟨hname, hzero, htext, hpath, hdraft⟩ => ⟨hname, hzero, htext, hpath, hdraft⟩⟩

theorem HasRoomFor.isTooLong_eq (hroom : HasRoomFor folder name) : isTooLong name = false := by
  have hle := hroom.name_le
  unfold isTooLong
  rw [decide_eq_false_iff_not]
  omega

theorem IsDirectory.find_eq (hfolder : IsDirectory disk folder entries) (hroom : HasRoomFor folder name)
    (hlink : ∀ target, entries.lookup name ≠ some (.link target)) :
    disk.find (.ofRoot (folder ++ [name])) = .ok (entries.lookup name) := by
  have hlocate : disk.locate? (.ofRoot (folder ++ [name])) =
      if (entries.lookup name).isSome then .ok (folder ++ [name]) else .error .missing := by
    have hpath : disk.locate? (.ofRoot (folder ++ [name])) =
      (Disk.checkText (.ofRoot (folder ++ [name]))).bind fun _ =>
        locateFrom? disk.top maxLinks [] (folder ++ [name]) := rfl
    rw [hpath, hroom.text, hfolder.locateFrom?_child hroom.isName hlink, hroom.isTooLong_eq]
    rfl
  unfold Disk.find Disk.findPlace
  rw [hlocate]
  cases hlookup : entries.lookup name with
  | none => rfl
  | some node => simp [Except.map, get?_concat_of_dir hfolder.get_eq, hlookup]

theorem IsFolder.find_eq (hfolder : IsFolder disk folder entries) (hroom : HasRoomFor folder name) :
    disk.find (.ofRoot (folder ++ [name])) = .ok (entries.lookup name) :=
  hfolder.isDirectory.find_eq hroom (hfolder.lookup_ne_link name)

theorem IsDirectory.entryPlace?_eq (hfolder : IsDirectory disk folder entries) (hname : IsName name)
    (htext : Disk.checkText (.ofRoot (folder ++ [name])) = .ok ()) (hshort : isTooLong name = false) :
    disk.entryPlace? (.ofRoot (folder ++ [name])) = .ok (some (folder ++ [name])) := by
  unfold Disk.entryPlace?
  rw [htext, Pathname.parent_ofRoot_concat, hfolder.locateDirectory?_eq, Pathname.name?_ofRoot_concat]
  simp [bind, Except.bind, pure, Except.pure, hname.2.2, hshort]

/-- A directory is made in a folder where nothing has its name. -/
theorem IsDirectory.succeeds_ensureDirectory_new (hfolder : IsDirectory disk folder entries)
    (hname : IsName name) (htext : Disk.checkText (.ofRoot (folder ++ [name])) = .ok ())
    (hshort : isTooLong name = false) (hnew : entries.lookup name = none) :
    Succeeds (ensureDirectory (.ofRoot (folder ++ [name]))) disk ()
      (disk.put (folder ++ [name]) (.dir [])) := by
  have hnone : disk.top.get? (folder ++ [name]) = none := by
    rw [get?_concat_of_dir hfolder.get_eq, hnew]
  exact succeeds_ensureDirectory_iff.mpr (.inl (succeeds_makeDirectory_iff.mpr
    ⟨_, hfolder.entryPlace?_eq hname htext hshort, hnone, rfl⟩))

theorem IsDirectory.succeeds_ensureDirectories_new (hfolder : IsDirectory disk folder entries)
    (hname : IsName name) (htext : Disk.checkText (.ofRoot (folder ++ [name])) = .ok ())
    (hshort : isTooLong name = false) (hnew : entries.lookup name = none) :
    Succeeds (ensureDirectories (.ofRoot (folder ++ [name]))) disk ()
      (disk.put (folder ++ [name]) (.dir [])) := by
  rw [ensureDirectories]
  exact succeeds_tryCatch_iff.mpr (.inl (hfolder.succeeds_ensureDirectory_new hname htext hshort hnew))

theorem IsDirectory.checkDraft_eq (hfolder : IsDirectory disk folder entries)
    (hroom : HasRoomFor folder name) :
    disk.checkDraft (.ofRoot (folder ++ [name])) = .ok () := by
  have hplain : Pathname.withoutParents (Pathname.ofRoot folder).parts = folder :=
    withoutParents_of_isName hfolder.names
  have hpath := hroom.path_le
  have hname := hroom.name_le
  unfold Disk.checkDraft
  rw [Pathname.parent_ofRoot_concat, Pathname.name?_ofRoot_concat, hplain, Option.getD_some]
  dsimp only
  rw [if_neg (by simpa using hroom.zero_not_mem), if_neg (by omega), if_neg (by omega),
    hfolder.locateDirectory?_eq]
  rfl

/-- **A file of a folder can be written.** -/
theorem IsFolder.succeeds_replaceFile (hfolder : IsFolder disk folder entries)
    (hroom : HasRoomFor folder name) (hfile : ∀ below, entries.lookup name ≠ some (.dir below)) :
    Succeeds (replaceFile (.ofRoot (folder ++ [name])) bytes) disk ()
      (disk.put (folder ++ [name]) (.file bytes)) := by
  have hnotDir : ¬IsDirAt disk (folder ++ [name]) := by
    unfold IsDirAt
    rw [hfolder.get?_eq]
    exact not_exists.mpr hfile
  have hdirectory := hfolder.isDirectory
  refine succeeds_replaceFile_iff_steps.mpr ⟨disk, folder ++ [name], ?_, hdirectory.checkDraft_eq hroom,
    ⟨_, hfolder.find_eq hroom⟩, hdirectory.entryPlace?_eq hroom.isName hroom.text hroom.isTooLong_eq,
    hnotDir, rfl⟩
  rw [Pathname.parent_ofRoot_concat]
  exact hdirectory.succeeds_ensureDirectories

end EnvFill.Storage
