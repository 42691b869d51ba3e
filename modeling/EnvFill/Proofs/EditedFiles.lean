import EnvFill.Proofs.FolderWrites
import EnvFill.Proofs.ScannedCode
import EnvFill.Proofs.SettingsFile

/-!
# Files of a folder that are edited

A settings file that gets new values, and a template that gets new keys, name no other variables than
they did and those that were added.
-/

namespace EnvFill.Project

open Storage EnvFile Text

variable {disk after : Disk} {folder place : Location} {entries : List (String × Node)}
  {path : Pathname} {content : Option (List UInt8)} {bytes : List UInt8} {name key : String}
  {keys known : List String} {count : Nat}

theorem isTarget_of_isFolder (hfolder : IsFolder disk folder entries) (hname : IsName name)
    (hzero : '\x00' ∉ name.toList) (hcontent : entries.lookup name = content.map .file) :
    IsTarget disk (.ofRoot (folder ++ [name])) (folder ++ [name]) content :=
  ⟨Disk.resolve_ofRoot (hfolder.names_child hname) (hfolder.linkFree_child name)
      (hasZero_child hfolder hzero),
    hfolder.linkFree_child name, (hfolder.get?_eq name).trans hcontent⟩

section Writes

variable (hfolder : IsFolder disk folder entries) (hroom : HasRoomFor folder name)
  (hcontent : entries.lookup name = content.map .file)

include hfolder hroom hcontent

theorem contentAt_of_isFolder : contentAt disk (.ofRoot (folder ++ [name])) = .ok content := by
  unfold contentAt
  rw [hfolder.find_eq hroom, hcontent]
  cases content <;> rfl

theorem succeeds_writeWhole_of_isFolder (bytes : List UInt8) :
    Succeeds (writeWhole (.ofRoot (folder ++ [name])) bytes) disk ()
      (disk.put (folder ++ [name]) (.file bytes)) := by
  refine succeeds_writeWhole_iff.mpr (hfolder.succeeds_replaceFile hroom fun below hbelow => ?_)
  rw [hcontent] at hbelow
  cases content <;> simp at hbelow

/-- Settings can be written to a file of a folder. -/
theorem succeeds_writeSettings_of_isFolder (settings : Entries) :
    Succeeds (writeSettings (.ofRoot (folder ++ [name])) settings) disk settings.size
      (disk.put (folder ++ [name]) (.file (setEntries settings content))) := by
  have htarget := isTarget_of_isFolder hfolder hroom.isName hroom.zero_not_mem hcontent
  simp only [writeSettings, succeeds_bind_iff, Edit.succeeds_look_iff, succeeds_pure_iff]
  exact ⟨_, _, ⟨followed_eq_ok_iff.mpr htarget.resolve_eq, rfl⟩, content, _,
    ⟨contentAt_of_isFolder hfolder hroom hcontent, rfl⟩, (), _,
    succeeds_writeWhole_of_isFolder hfolder hroom hcontent _, trivial, rfl⟩

/-- Keys can be added to a file of a folder. -/
theorem exists_succeeds_syncTemplate_of_isFolder (keys : List String) :
    ∃ count later, Succeeds (syncTemplate (.ofRoot (folder ++ [name])) keys) disk count later := by
  have htarget := isTarget_of_isFolder hfolder hroom.isName hroom.zero_not_mem hcontent
  have hread := contentAt_of_isFolder hfolder hroom hcontent
  simp only [syncTemplate, succeeds_bind_iff, Edit.succeeds_look_iff]
  cases hmissing : missingKeys content keys with
  | nil =>
    refine ⟨0, disk, _, _, ⟨followed_eq_ok_iff.mpr htarget.resolve_eq, rfl⟩, content, _,
      ⟨hread, rfl⟩, ?_⟩
    rw [hmissing]
    exact succeeds_pure_iff.mpr ⟨rfl, rfl⟩
  | cons first rest =>
    have hwrite := succeeds_writeWhole_of_isFolder hfolder hroom hcontent
      (addKeys content (first :: rest))
    refine ⟨(first :: rest).length, disk.put (folder ++ [name]) (.file (addKeys content
      (first :: rest))), _, _, ⟨followed_eq_ok_iff.mpr htarget.resolve_eq, rfl⟩, content, _,
      ⟨hread, rfl⟩, ?_⟩
    rw [hmissing]
    exact succeeds_bind_iff.mpr ⟨(), _, hwrite, succeeds_pure_iff.mpr ⟨rfl, rfl⟩⟩

end Writes

/-- Nothing lies there, or text in which every return stands before a line feed. -/
def IsText (content : Option (List UInt8)) : Prop :=
  ∀ bytes ∈ content, (0 : UInt8) ∉ bytes ∧ HasPairedReturns bytes

theorem looksLikeText_of_zero_not_mem (hzero : (0 : UInt8) ∉ bytes) : looksLikeText bytes = true := by
  unfold looksLikeText
  have hbegin : (0 : UInt8) ∉ bytes.take sniffedBytes := fun hmem => hzero (List.mem_of_mem_take hmem)
  simpa using hbegin

theorem mem_settings_of_mem_keysNamed (hpaired : ∀ bytes ∈ content, HasPairedReturns bytes)
    (hkey : key ∈ keysNamed content) :
    Name.isVariableKey key = true ∧ key ∈ (settingsOf content).keys := by
  cases content with
  | none => exact absurd hkey List.not_mem_nil
  | some bytes =>
    unfold keysNamed at hkey
    dsimp only at hkey
    split at hkey
    · exact (mem_variableKeys_iff (hpaired bytes rfl)).mp hkey
    · exact absurd hkey List.not_mem_nil

theorem mem_keysNamed_of_mem_settings (htext : IsText content)
    (hvariable : Name.isVariableKey key = true) (hkey : key ∈ (settingsOf content).keys) :
    key ∈ keysNamed content := by
  cases content with
  | none => exact absurd hkey List.not_mem_nil
  | some bytes =>
    obtain ⟨hzero, hpaired⟩ := htext bytes rfl
    unfold keysNamed
    dsimp only
    rw [if_pos (looksLikeText_of_zero_not_mem hzero)]
    exact (mem_variableKeys_iff hpaired).mpr ⟨hvariable, hkey⟩

/-- A file whose settings have no new keys but known ones names nothing else. -/
theorem mem_keysNamed_of_settings (htext : IsText content) (hpaired : HasPairedReturns bytes)
    (hkeys : ∀ key ∈ (settingsOf (some bytes)).keys, key ∈ (settingsOf content).keys ∨ key ∈ known)
    (hkey : key ∈ keysNamed (some bytes)) : key ∈ keysNamed content ∨ key ∈ known := by
  have hpairs : ∀ other ∈ some bytes, HasPairedReturns other := by
    rintro _ ⟨⟩
    exact hpaired
  obtain ⟨hvariable, hsetting⟩ := mem_settings_of_mem_keysNamed hpairs hkey
  exact (hkeys key hsetting).imp_left (mem_keysNamed_of_mem_settings htext hvariable)

theorem not_isCodeFile_of_mem_writableFiles :
    ∀ file ∈ Name.writableFiles, Name.isCodeFile file = false := by decide

/-- A settings file that is written to is not searched for references. -/
theorem namesOnly_of_settings (hname : name ∈ Name.writableFiles) (htext : IsText content)
    (hpaired : HasPairedReturns bytes)
    (hkeys : ∀ key ∈ (settingsOf (some bytes)).keys, key ∈ (settingsOf content).keys ∨ key ∈ known) :
    NamesOnly name content bytes known where
  keys _ hkey := mem_keysNamed_of_settings htext hpaired hkeys hkey
  references _ hcode := by
    rw [not_isCodeFile_of_mem_writableFiles name hname] at hcode
    exact absurd hcode Bool.false_ne_true

/-- **What a template gets.** Nothing changes, or the file gets the keys that it lacks. -/
theorem IsTarget.syncTemplate_eq (htarget : IsTarget disk path place content)
    (hsync : Succeeds (syncTemplate path keys) disk count after) :
    after = disk ∨ missingKeys content keys ≠ [] ∧ IsWritable place disk ∧
      after = disk.put place (.file (addKeys content (missingKeys content keys))) := by
  simp only [syncTemplate, succeeds_bind_iff, Edit.succeeds_look_iff] at hsync
  obtain ⟨found, _, ⟨hfound, rfl⟩, read, _, ⟨hread, rfl⟩, hsync⟩ := hsync
  obtain rfl : place = found :=
    Except.ok.inj (htarget.resolve_eq.symm.trans (followed_eq_ok_iff.mp hfound))
  cases hmissing : missingKeys read keys with
  | nil =>
    rw [hmissing] at hsync
    exact .inl (succeeds_pure_iff.mp hsync).2.symm
  | cons first rest =>
    rw [hmissing] at hsync
    obtain ⟨_, _, hwhole, hcount⟩ := succeeds_bind_iff.mp hsync
    obtain ⟨-, rfl⟩ := succeeds_pure_iff.mp hcount
    obtain ⟨hwritable, hafter⟩ :=
      succeeds_replaceFile htarget.isName htarget.linkFree (succeeds_writeWhole_iff.mp hwhole)
    obtain rfl := htarget.contentAt_eq hwritable.text hread
    rw [hmissing]
    exact .inr ⟨List.cons_ne_nil first rest, hwritable, hafter⟩

/-- A template with new keys names nothing new but them. -/
theorem namesOnly_addKeys (htext : IsText content) (hne : missingKeys content keys ≠ [])
    (hnames : ∀ key ∈ keys, Name.IsVariableName key.toList) :
    NamesOnly name content (addKeys content (missingKeys content keys)) keys := by
  have hmissing : ∀ key ∈ missingKeys content keys, key ∈ keys :=
    fun key hkey => (mem_missingKeys_iff.mp hkey).1
  have hwritable : ∀ key ∈ missingKeys content keys, IsWritableKey key :=
    fun key hkey => (hnames key (hmissing key hkey)).isWritableKey
  have hpaired : ∀ bytes ∈ content, HasPairedReturns bytes := fun bytes hbytes =>
    (htext bytes hbytes).2
  refine ⟨fun key hkey => ?_, fun _ _ key hkey => ?_⟩
  · refine mem_keysNamed_of_settings htext
      (hasPairedReturns_of_cr_not_mem (cr_not_mem_addKeys hwritable)) (fun other hother => ?_) hkey
    exact (mem_keys_of_addKeys hwritable hother).imp_right (hmissing other)
  · obtain ⟨_, ⟨⟩, -, hkey⟩ := mem_namesReferred_iff.mp hkey
    rcases mem_candidates_of_addKeys hne hwritable (fun other hother => hnames other (hmissing other
      hother)) hpaired hkey with ⟨bytes, hbytes, hold⟩ | hnew
    · exact .inl (mem_namesReferred_iff.mpr
        ⟨bytes, hbytes, looksLikeText_of_zero_not_mem (htext bytes hbytes).1, hold⟩)
    · exact .inr (hmissing key hnew)

end EnvFill.Project
