import EnvFill.Proofs.ScanRoots

/-!
# Scans of a folder

A scan of a folder without links is decided by what lies in the folder. When a file is written in it,
a later scan succeeds as well, and finds nothing more than the first unless the new file names more.
-/

namespace EnvFill.Project

open Storage Node EnvFile Fill Ignore Text

variable {disk : Disk} {folder place : Location} {entries : List (String × Node)} {node : Node}
  {name key : String} {found : Found}

structure HasNoLinks (disk : Disk) (folder : Location) : Prop where
  above : IsLinkFree folder disk.top
  below : ∀ node ∈ disk.top.get? folder, node.linkCount = 0

theorem hasNoLinks_of_linkCount (hcount : disk.top.linkCount = 0) (folder : Location) :
    HasNoLinks disk folder :=
  ⟨isLinkFree_of_linkCount hcount folder, fun _ hnode => linkCount_of_get? hcount hnode⟩

theorem isDirectory_of_scanRoot (hnames : ∀ name ∈ folder, IsName name)
    (hfree : IsLinkFree folder disk.top) (hroot : scanRoot disk (.ofRoot folder) = .ok (place, node)) :
    place = folder ∧ ∃ entries, node = .dir entries ∧ IsDirectory disk folder entries := by
  obtain ⟨resolved, hresolve, hlocate, hget, hdir⟩ := scanRoot_returns_iff.mp hroot
  obtain rfl := Disk.eq_of_resolve_ofRoot hnames hfree hresolve
  obtain ⟨htext, rfl, hshort, -⟩ := (Disk.locate?_ofRoot_eq_ok_iff hnames hfree).mp hlocate
  cases node with
  | dir entries => exact ⟨rfl, entries, rfl, htext, hnames, hshort, hfree, hget⟩
  | file bytes => exact absurd hdir Bool.false_ne_true
  | link target => exact absurd hdir Bool.false_ne_true

theorem isFolder_of_scanRoot (hnames : ∀ name ∈ folder, IsName name) (hlinks : HasNoLinks disk folder)
    (hroot : scanRoot disk (.ofRoot folder) = .ok (place, node)) :
    place = folder ∧ ∃ entries, node = .dir entries ∧ IsFolder disk folder entries := by
  obtain ⟨hplace, entries, hnode, htext, -, hshort, hfree, hget⟩ :=
    isDirectory_of_scanRoot hnames hlinks.above hroot
  exact ⟨hplace, entries, hnode, htext, hnames, hshort, hfree, hget, hlinks.below _ hget⟩

theorem scanRoot_of_isDirectory (hfolder : IsDirectory disk folder entries) :
    scanRoot disk (.ofRoot folder) = .ok (folder, .dir entries) :=
  scanRoot_returns_iff.mpr ⟨folder, hfolder.resolve_eq, hfolder.locate?_eq, hfolder.get_eq, rfl⟩

theorem scanRoot_of_isFolder (hfolder : IsFolder disk folder entries) :
    scanRoot disk (.ofRoot folder) = .ok (folder, .dir entries) :=
  scanRoot_of_isDirectory hfolder.isDirectory

def namesReferred (content : Option (List UInt8)) : List String :=
  match content with
  | none => []
  | some bytes => if looksLikeText bytes then Name.candidates (Utf8.decodeLossy bytes) else []

theorem mem_names_ofMentions {mentions : List (String × String)} :
    key ∈ (Found.ofMentions mentions).names ↔ ∃ file, (key, file) ∈ mentions := by
  have hnames : (Found.ofMentions mentions).names = Sorted.ofList (mentions.map Prod.fst) := by
    simp [Found.names, Found.ofMentions, Function.comp_def]
  rw [hnames, Sorted.mem_ofList]
  simp

section Shallow

theorem hasZero_child (hfolder : IsFolder disk folder entries) (hname : '\x00' ∉ name.toList) :
    (Pathname.ofRoot (folder ++ [name])).hasZero = false := by
  have hparts := Disk.hasZero_of_checkText hfolder.text
  unfold Pathname.hasZero Pathname.ofRoot at hparts ⊢
  dsimp only at hparts ⊢
  rw [List.any_append, hparts]
  simpa using hname

theorem isName_of_mem_sourceFiles : ∀ file ∈ Name.sourceFiles, IsName file ∧ '\x00' ∉ file.toList := by
  have hall : ∀ file ∈ Name.sourceFiles, (file ≠ "" ∧ file ≠ "." ∧ file ≠ "..") ∧
      file.toList.contains '\x00' = false := by decide
  intro file hfile
  obtain ⟨hname, hzero⟩ := hall file hfile
  exact ⟨hname, by simpa using hzero⟩

/-- A scan finds the keys of each settings file. -/
theorem scanSettings_eq_of_bytes {content : String → Option (List UInt8)}
    (hfolder : IsDirectory disk folder entries) (hlooked : ∀ file ∈ Name.sourceFiles,
      disk.bytes? (.ofRoot (folder ++ [file])) = .ok (content file)) :
    scanSettings disk (.ofRoot folder) = .ok (.ofMentions (Name.sourceFiles.map fun file =>
      (keysNamed (content file)).map fun key => (key, file)).flatten) := by
  refine scanSettings_returns_iff.mpr ⟨folder, .dir entries, scanRoot_of_isDirectory hfolder,
    fun file hfile => ⟨_, hlooked file hfile⟩, ?_⟩
  congr 2
  apply List.map_congr_left
  intro file hfile
  rw [contentOf_eq (hlooked file hfile)]

theorem scanSettings_eq_ok_iff (hfolder : IsFolder disk folder entries) :
    scanSettings disk (.ofRoot folder) = .ok found ↔
      (∀ file ∈ Name.sourceFiles, Disk.checkText (.ofRoot (folder ++ [file])) = .ok () ∧
        isTooLong file = false) ∧
      found = .ofMentions (Name.sourceFiles.map fun file =>
        (keysNamed ((entries.lookup file).bind Node.bytes?)).map fun key => (key, file)).flatten := by
  have hread : ∀ file ∈ Name.sourceFiles, ∀ content,
      disk.bytes? (.ofRoot (folder ++ [file])) = .ok content ↔
        Disk.checkText (.ofRoot (folder ++ [file])) = .ok () ∧ isTooLong file = false ∧
          content = (entries.lookup file).bind Node.bytes? := by
    intro file hfile content
    obtain ⟨hname, hzero⟩ := isName_of_mem_sourceFiles file hfile
    exact hfolder.bytes?_eq_ok_iff hname (hasZero_child hfolder hzero)
  have hroot := scanRoot_of_isFolder hfolder
  constructor
  · intro hscan
    obtain ⟨_, _, hother, hlooked, rfl⟩ := scanSettings_returns_iff.mp hscan
    obtain ⟨rfl, -⟩ := Prod.mk.inj (Except.ok.inj (hroot.symm.trans hother))
    constructor
    · intro file hfile
      obtain ⟨content, hcontent⟩ := hlooked file hfile
      obtain ⟨htext, hshort, -⟩ := (hread file hfile content).mp hcontent
      exact ⟨htext, hshort⟩
    · congr 2
      apply List.map_congr_left
      intro file hfile
      obtain ⟨content, hcontent⟩ := hlooked file hfile
      rw [contentOf_eq hcontent, ((hread file hfile content).mp hcontent).2.2]
  · rintro ⟨hchecked, rfl⟩
    exact scanSettings_eq_of_bytes hfolder.isDirectory fun file hfile =>
      (hread file hfile _).mpr ⟨(hchecked file hfile).1, (hchecked file hfile).2, rfl⟩

/-- Where no settings file but one has keys, only that one is found. -/
theorem mentions_of_only_file {content : String → Option (List UInt8)} {file : String}
    (hfile : file ∈ Name.sourceFiles)
    (hothers : ∀ other ∈ Name.sourceFiles, other ≠ file → keysNamed (content other) = []) :
    (Name.sourceFiles.map fun other => (keysNamed (content other)).map fun key => (key, other)).flatten =
      (keysNamed (content file)).map fun key => (key, file) := by
  have hmentions : Name.sourceFiles.map (fun other =>
      (keysNamed (content other)).map fun key => (key, other)) =
        Name.sourceFiles.map fun other => if other = file then
          (keysNamed (content file)).map fun key => (key, other) else [] := by
    refine List.map_congr_left fun other hother => ?_
    split
    · rename_i heq
      rw [heq]
    · rename_i hne
      rw [hothers other hother hne, List.map_nil]
  have hone : ∀ keys : List String, ∀ file ∈ Name.sourceFiles, (Name.sourceFiles.map fun other =>
      if other = file then keys.map fun key => (key, other) else []).flatten =
        keys.map fun key => (key, file) := by
    simp [Name.sourceFiles]
  rw [hmentions, hone _ file hfile]

/-- Where one settings file has keys and no other has any, a scan finds the keys in the file. -/
theorem scanSettings_eq_of_only_file {file : String} (hfolder : IsFolder disk folder entries)
    (hchecked : ∀ file ∈ Name.sourceFiles, Disk.checkText (.ofRoot (folder ++ [file])) = .ok () ∧
      isTooLong file = false) (hfile : file ∈ Name.sourceFiles)
    (hothers : ∀ other ∈ Name.sourceFiles, other ≠ file →
      keysNamed ((entries.lookup other).bind Node.bytes?) = []) :
    scanSettings disk (.ofRoot folder) = .ok (.ofMentions
      ((keysNamed ((entries.lookup file).bind Node.bytes?)).map fun key => (key, file))) := by
  refine (scanSettings_eq_ok_iff hfolder).mpr ⟨hchecked, ?_⟩
  rw [← mentions_of_only_file hfile hothers]

theorem scanSettings_eq_of_only {file : String} (hfolder : IsFolder disk folder entries)
    (hchecked : ∀ file ∈ Name.sourceFiles, Disk.checkText (.ofRoot (folder ++ [file])) = .ok () ∧
      isTooLong file = false) (hfile : file ∈ Name.sourceFiles)
    (hkey : keysNamed ((entries.lookup file).bind Node.bytes?) = [key])
    (hothers : ∀ other ∈ Name.sourceFiles, other ≠ file →
      keysNamed ((entries.lookup other).bind Node.bytes?) = []) :
    scanSettings disk (.ofRoot folder) = .ok ⟨[(key, [file])]⟩ := by
  rw [scanSettings_eq_of_only_file hfolder hchecked hfile hothers, hkey]
  simp [Found.ofMentions, Sorted.ofList, Sorted.insert]

theorem mem_names_scanSettings (hfolder : IsFolder disk folder entries)
    (hscan : scanSettings disk (.ofRoot folder) = .ok found) :
    key ∈ found.names ↔
      ∃ file ∈ Name.sourceFiles, key ∈ keysNamed ((entries.lookup file).bind Node.bytes?) := by
  obtain ⟨-, rfl⟩ := (scanSettings_eq_ok_iff hfolder).mp hscan
  rw [mem_names_ofMentions]
  simp

end Shallow

end EnvFill.Project
