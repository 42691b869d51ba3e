import EnvFill.Proofs.SettingsScans

/-!
# Names that scans report

Whichever way a folder is scanned, the names that are reported are names of variables which no system
provides, each with files that are there. Only a scan through code asks for three characters.
-/

namespace EnvFill.Project

open Storage Fill Ignore Name Node Text

variable {disk : Disk} {path : Pathname} {root : Location} {node : Node} {found : Found}
  {name file text : String} {bytes : List UInt8} {extra : List String} {maxDepth : Int} {deep : Bool}

def IsFileBelow (disk : Disk) (root : Location) (node : Node) (text : String) : Prop :=
  ∃ dirs file bytes child, text = relativeText (dirs ++ [file]) ∧ node.Holds (dirs ++ [file]) child ∧
    LeadsToFile disk (root ++ dirs) file bytes child

/-- What a name in a directory leads to, the entry of that name leads to. -/
theorem exists_leadsToFile {entries : List (String × Node)} {goal : Location}
    (hget : disk.top.get? root = some (.dir entries)) (hname : IsName file)
    (hfrom : locateFrom? disk.top maxLinks root [file] = .ok goal)
    (hfile : disk.top.get? goal = some (.file bytes)) :
    ∃ child, entries.lookup file = some child ∧ LeadsToFile disk root file bytes child := by
  have hstep := hfrom
  obtain ⟨-, hdot, hdots⟩ := hname
  have hchild := get?_concat_of_dir hget file
  rw [locateFrom?, if_neg hdot, if_neg hdots, hchild] at hstep
  split at hstep
  · simp at hstep
  cases hlookup : entries.lookup file with
  | none => simp [hlookup] at hstep
  | some child =>
    rw [hlookup] at hstep hchild
    refine ⟨child, rfl, ?_⟩
    cases child with
    | link target => exact .link hfrom hfile
    | file content =>
      obtain rfl : root ++ [file] = goal := Except.ok.inj hstep
      obtain rfl : content = bytes := Node.file.inj (Option.some.inj (hchild.symm.trans hfile))
      exact .file
    | dir below =>
      dsimp only at hstep
      rw [locateFrom?] at hstep
      obtain rfl : root ++ [file] = goal := Except.ok.inj hstep
      exact absurd (hchild.symm.trans hfile) (by simp)

/-- A file in the directory where a scan begins lies below it. -/
theorem isFileBelow_of_bytes? (hroot : scanRoot disk path = .ok (root, node)) (hname : IsName file)
    (hbytes : disk.bytes? (.ofRoot (root ++ [file])) = .ok (some bytes)) :
    IsFileBelow disk root node file := by
  obtain ⟨-, -, -, hget, hdir⟩ := scanRoot_returns_iff.mp hroot
  obtain ⟨goal, hgoal, hfile⟩ := Disk.bytes?_eq_some_iff.mp hbytes
  have hentry := isEntryName_of_scanRoot hroot
  cases node with
  | file bytes => exact absurd hdir Bool.false_ne_true
  | link target => exact absurd hdir Bool.false_ne_true
  | dir entries =>
    have hfrom : locateFrom? disk.top maxLinks root [file] = .ok goal := by
      have happend := @locateFrom?_append_of_dir disk.top maxLinks [] root [file] entries
        (fun name hname => (hentry name hname).1) (fun name hname => (hentry name hname).2) hget
      exact happend.symm.trans (Disk.locate?_eq_ok_iff.mp hgoal).2
    obtain ⟨child, hchild, hleads⟩ := exists_leadsToFile hget hname hfrom hfile
    exact ⟨[], file, bytes, child, rfl, .into (mem_of_lookup hchild) (.here child), by rwa [List.append_nil]⟩

structure IsReported (disk : Disk) (root : Location) (node : Node) (deep : Bool) (found : Found)
    (name : String) : Prop where
  shape : IsVariableName name.toList
  free : name ∉ reserved
  long : deep = true → 3 ≤ name.length
  mentioned : found.files name ≠ []
  held : ∀ file ∈ found.files name, IsFileBelow disk root node file

theorem exists_mem_files_ofMentions {mentions : List (String × String)}
    (hname : name ∈ (Found.ofMentions mentions).names) :
    ∃ file, file ∈ (Found.ofMentions mentions).files name := by
  obtain ⟨file, hmention⟩ := mem_names_ofMentions.mp hname
  exact ⟨file, Found.mem_files_ofMentions.mpr hmention⟩

theorem isReported_scanSettings (hroot : scanRoot disk path = .ok (root, node))
    (hscan : scanSettings disk path = .ok found) (hname : name ∈ found.names) :
    IsReported disk root node false found name := by
  have hmention : ∃ file, file ∈ found.files name := by
    obtain ⟨_, _, -, -, rfl⟩ := scanSettings_returns_iff.mp hscan
    exact exists_mem_files_ofMentions hname
  obtain ⟨file, hfile⟩ := hmention
  obtain ⟨-, bytes, -, -, hkey⟩ := (mem_files_scanSettings hroot hscan).mp hfile
  refine ⟨isVariableName_of_mem_variableKeys hkey, ?_, by simp, List.ne_nil_of_mem hfile, ?_⟩
  · rw [variableKeys, Sorted.mem_ofList, List.mem_filter, isVariableKey, Bool.and_eq_true] at hkey
    simpa using hkey.2.2
  · intro other hother
    obtain ⟨hsource, content, hcontent, -, -⟩ := (mem_files_scanSettings hroot hscan).mp hother
    exact isFileBelow_of_bytes? hroot (isName_of_mem_sourceFiles other hsource).1 hcontent

theorem isReported_scanCodeIn {filter : ScanFilter}
    (hname : name ∈ (scanCodeIn disk root node filter maxDepth).found.names) :
    IsReported disk root node true (scanCodeIn disk root node filter maxDepth).found name := by
  obtain ⟨file, hfile⟩ := exists_mem_files_ofMentions hname
  obtain ⟨_, _, bytes, -, -, hcandidate⟩ := mem_files_scanCodeIn.mp hfile
  obtain ⟨hfree, hlong⟩ := isCandidate_iff.mp (mem_candidates_iff.mp hcandidate).2
  refine ⟨isVariableName_of_mem_candidates hcandidate, hfree, fun _ => hlong, List.ne_nil_of_mem hfile, ?_⟩
  intro other hother
  obtain ⟨dirs, last, content, hscanned, rfl, -⟩ := mem_files_scanCodeIn.mp hother
  obtain ⟨child, hheld, hleads⟩ := hscanned.held
  exact ⟨dirs, last, content, child, rfl, hheld, hleads⟩

/-- **Reported names are names of variables with files.** In either way of scanning, for all further
patterns and depths with which the scan returns. -/
theorem reported_names_are_well_formed (hscan : scan disk path deep extra maxDepth = .ok found) :
    ∃ root node, scanRoot disk path = .ok (root, node) ∧
      ∀ name ∈ found.names, IsReported disk root node deep found name := by
  cases deep with
  | false =>
    have hshallow : scanSettings disk path = .ok found := hscan
    obtain ⟨root, node, hroot, -, -⟩ := scanSettings_returns_iff.mp hshallow
    exact ⟨root, node, hroot, fun name hname => isReported_scanSettings hroot hshallow hname⟩
  | true =>
    obtain ⟨code, hcode, rfl⟩ := scan_deep_eq_ok_iff.mp hscan
    obtain ⟨root, node, own, filter, hroot, -, -, rfl⟩ := scanCode_returns_iff.mp hcode
    exact ⟨root, node, hroot, fun name hname => isReported_scanCodeIn hname⟩

/-- The one key of a settings file is reported for it. -/
theorem reported_name_of_settingsDisk :
    ∃ found root node, scan (settingsDisk "API_KEY=1\n") (.ofRoot ["app"]) false [] 32 = .ok found ∧
      "API_KEY" ∈ found.names ∧
        IsReported (settingsDisk "API_KEY=1\n") root node false found "API_KEY" := by
  obtain ⟨found, hscan⟩ := exists_scanSettings_settingsDisk "API_KEY=1\n"
  have hshallow : scan (settingsDisk "API_KEY=1\n") (.ofRoot ["app"]) false [] 32 = .ok found := hscan
  obtain ⟨root, node, -, hreported⟩ := reported_names_are_well_formed hshallow
  have hname : "API_KEY" ∈ found.names := by
    rw [mem_names_scanSettings (isFolder_settingsDisk "API_KEY=1\n") hscan]
    exact ⟨".env", by decide, by decide +kernel⟩
  exact ⟨found, root, node, hscan, hname, hreported "API_KEY" hname⟩

/-- A scan through settings files reports a name of two characters. -/
theorem short_name_is_reported :
    ∃ found, scan (settingsDisk "AB=1\n") (.ofRoot ["app"]) false [] 32 = .ok found ∧
      "AB" ∈ found.names ∧ ¬3 ≤ "AB".length := by
  obtain ⟨found, hscan⟩ := exists_scanSettings_settingsDisk "AB=1\n"
  refine ⟨found, hscan, ?_, by decide⟩
  rw [mem_names_scanSettings (isFolder_settingsDisk "AB=1\n") hscan]
  exact ⟨".env", by decide, by decide +kernel⟩

end EnvFill.Project
