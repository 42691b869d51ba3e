import EnvFill.Proofs.CodeScans
import EnvFill.Proofs.FileRuns

/-!
# What a scan through settings files lists

A scan through settings files and the reader of settings take the same keys from a file, if it looks
like text and its carriage returns are paired. The scan passes over a file with a zero among its first
bytes and sees no line end in a return that stands alone, where the reader sees one.
-/

namespace EnvFill.Project

open Storage EnvFile Fill Name Text

variable {disk : Disk} {path : Pathname} {root : Location} {node : Node} {found : Found}
  {name file : String} {bytes : List UInt8}

theorem mem_keysNamed_contentOf_iff :
    name ∈ keysNamed (contentOf disk path) ↔ ∃ bytes, disk.bytes? path = .ok (some bytes) ∧
      looksLikeText bytes = true ∧ name ∈ variableKeys (lines (Utf8.decodeLossy bytes)) := by
  unfold contentOf
  cases disk.bytes? path with
  | error error => simp [keysNamed, Except.toOption]
  | ok content =>
    cases content with
    | none => simp [keysNamed, Except.toOption]
    | some bytes =>
      by_cases htext : looksLikeText bytes = true
      · simp [keysNamed, Except.toOption, htext]
      · simp [keysNamed, Except.toOption, htext]

/-- The scan lists the settings files by the variables among their keys. -/
theorem mem_files_scanSettings (hroot : scanRoot disk path = .ok (root, node))
    (hscan : scanSettings disk path = .ok found) :
    file ∈ found.files name ↔ file ∈ sourceFiles ∧ ∃ bytes,
      disk.bytes? (.ofRoot (root ++ [file])) = .ok (some bytes) ∧ looksLikeText bytes = true ∧
        name ∈ variableKeys (lines (Utf8.decodeLossy bytes)) := by
  obtain ⟨other, _, hother, -, rfl⟩ := scanSettings_returns_iff.mp hscan
  obtain ⟨rfl, -⟩ := Prod.mk.inj (Except.ok.inj (hroot.symm.trans hother))
  rw [Found.mem_files_ofMentions, ← mem_keysNamed_contentOf_iff, ← List.flatMap_def, List.mem_flatMap]
  constructor
  · rintro ⟨source, hsource, hmention⟩
    obtain ⟨key, hkey, heq⟩ := List.mem_map.mp hmention
    obtain ⟨rfl, rfl⟩ := Prod.mk.inj heq
    exact ⟨hsource, hkey⟩
  · rintro ⟨hsource, hkey⟩
    exact ⟨file, hsource, List.mem_map_of_mem hkey⟩

/-- **A scan and the reader take the same keys** from a settings file that looks like text and whose
carriage returns are paired. A file with a zero at its beginning is listed under no name. -/
theorem scanned_keys_are_read_keys (hroot : scanRoot disk path = .ok (root, node))
    (hfile : file ∈ sourceFiles)
    (hbytes : disk.bytes? (.ofRoot (root ++ [file])) = .ok (some bytes)) :
    ((∃ found, scanSettings disk path = .ok found) ↔
        ∀ other ∈ sourceFiles, ∃ content, disk.bytes? (.ofRoot (root ++ [other])) = .ok content) ∧
      ∃ settings, readSettings disk (.ofRoot (root ++ [file])) = .ok settings ∧
        ∀ found, scanSettings disk path = .ok found →
          (0 ∈ bytes.take 8192 → ∀ name, file ∉ found.files name) ∧
            (0 ∉ bytes.take 8192 → HasPairedReturns bytes → ∀ name,
              file ∈ found.files name ↔ name ∈ settings.keys ∧ isVariableKey name = true) := by
  constructor
  · constructor
    · rintro ⟨found, hscan⟩
      obtain ⟨_, _, hother, hlooked, -⟩ := scanSettings_returns_iff.mp hscan
      obtain ⟨rfl, -⟩ := Prod.mk.inj (Except.ok.inj (hroot.symm.trans hother))
      exact hlooked
    · intro hlooked
      exact ⟨_, scanSettings_returns_iff.mpr ⟨root, node, hroot, hlooked, rfl⟩⟩
  refine ⟨_, readSettings_of_bytes hbytes, fun found hscan => ?_⟩
  have hlisted : ∀ name, file ∈ found.files name ↔ looksLikeText bytes = true ∧
      name ∈ variableKeys (lines (Utf8.decodeLossy bytes)) := by
    intro name
    rw [mem_files_scanSettings hroot hscan]
    constructor
    · rintro ⟨-, other, hother, htext, hkey⟩
      obtain rfl := Option.some.inj (Except.ok.inj (hbytes.symm.trans hother))
      exact ⟨htext, hkey⟩
    · rintro ⟨htext, hkey⟩
      exact ⟨hfile, bytes, hbytes, htext, hkey⟩
  constructor
  · intro hzero name hname
    exact looksLikeText_iff.mp ((hlisted name).mp hname).1 hzero
  · intro hzero hpaired name
    rw [hlisted, looksLikeText_iff, mem_variableKeys_iff hpaired, and_comm (a := name ∈ _)]
    exact and_iff_right hzero

def settingsDisk (text : String) : Disk := projectDisk [(".env", .file (Utf8.encodeText text.toList))]

theorem isFolder_settingsDisk (text : String) :
    IsFolder (settingsDisk text) ["app"] [(".env", .file (Utf8.encodeText text.toList))] :=
  isFolder_projectDisk rfl

theorem readSettings_settingsDisk (text : String) :
    (settingsDisk text).bytes? (.ofRoot (["app"] ++ [".env"])) = .ok (some (Utf8.encodeText text.toList)) ∧
      readSettings (settingsDisk text) (.ofRoot (["app"] ++ [".env"])) =
        .ok (settingsOf (some (Utf8.encodeText text.toList))) := by
  have hbytes : (settingsDisk text).bytes? (.ofRoot (["app"] ++ [".env"])) =
      .ok (some (Utf8.encodeText text.toList)) :=
    ((isFolder_settingsDisk text).bytes?_eq_ok_iff (by decide) (by decide)).mpr
      ⟨by decide, by decide, rfl⟩
  exact ⟨hbytes, readSettings_of_bytes hbytes⟩

theorem exists_scanSettings_settingsDisk (text : String) :
    ∃ found, scanSettings (settingsDisk text) (.ofRoot ["app"]) = .ok found :=
  ⟨_, (scanSettings_eq_ok_iff (isFolder_settingsDisk text)).mpr ⟨by decide, rfl⟩⟩

/-- In a file with returns the key that names a variable is listed, and a lowercase one is not. -/
theorem scanned_keys_are_read_keys_of_returns :
    ∃ found settings, scanSettings (settingsDisk "API_KEY=1\r\nab=2\r\n") (.ofRoot ["app"]) = .ok found ∧
      readSettings (settingsDisk "API_KEY=1\r\nab=2\r\n") (.ofRoot ["app", ".env"]) = .ok settings ∧
        ".env" ∈ found.files "API_KEY" ∧ "ab" ∈ settings.keys ∧ ".env" ∉ found.files "ab" := by
  obtain ⟨hbytes, hsettings⟩ := readSettings_settingsDisk "API_KEY=1\r\nab=2\r\n"
  have hroot := scanRoot_of_isFolder (isFolder_settingsDisk "API_KEY=1\r\nab=2\r\n")
  obtain ⟨-, settings, hread, hkeys⟩ := scanned_keys_are_read_keys hroot (by decide) hbytes
  obtain rfl := Except.ok.inj (hsettings.symm.trans hread)
  obtain ⟨found, hscan⟩ := exists_scanSettings_settingsDisk "API_KEY=1\r\nab=2\r\n"
  have hlisted := (hkeys found hscan).2 (by decide +kernel) (by decide +kernel)
  refine ⟨found, _, hscan, hread, (hlisted "API_KEY").mpr (by decide +kernel), by decide +kernel, ?_⟩
  rw [hlisted]
  decide +kernel

/-- The reader takes a key with the name of a variable from a settings file that the scan does not list
under it. -/
def HidesReadKey (text name : String) : Prop :=
  ∃ found settings, scanSettings (settingsDisk text) (.ofRoot ["app"]) = .ok found ∧
    readSettings (settingsDisk text) (.ofRoot ["app", ".env"]) = .ok settings ∧
      name ∈ settings.keys ∧ isVariableKey name = true ∧ ".env" ∉ found.files name

theorem hidesReadKey_of {text : String} (hkey : isVariableKey name = true)
    (hread : name ∈ (settingsOf (some (Utf8.encodeText text.toList))).keys)
    (hmissed : name ∉ keysNamed (some (Utf8.encodeText text.toList))) : HidesReadKey text name := by
  obtain ⟨hbytes, hsettings⟩ := readSettings_settingsDisk text
  obtain ⟨found, hscan⟩ := exists_scanSettings_settingsDisk text
  refine ⟨found, _, hscan, hsettings, hread, hkey, ?_⟩
  rw [mem_files_scanSettings (scanRoot_of_isFolder (isFolder_settingsDisk text)) hscan,
    ← mem_keysNamed_contentOf_iff, contentOf_eq hbytes]
  exact fun hlisted => hmissed hlisted.2

/-- The scan passes over a file with a zero, and sees no line end in a return that stands alone. -/
theorem zero_or_return_hides_read_key :
    HidesReadKey "API_KEY=1\n\x00\n" "API_KEY" ∧ HidesReadKey "PORT=1\rAPI_KEY=2\n" "API_KEY" := by
  constructor
  · exact hidesReadKey_of (by decide +kernel) (by decide +kernel) (by decide +kernel)
  · exact hidesReadKey_of (by decide +kernel) (by decide +kernel) (by decide +kernel)

end EnvFill.Project
