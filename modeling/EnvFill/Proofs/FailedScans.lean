import EnvFill.Proofs.EmptiedFiles
import EnvFill.Proofs.TomlFaults

/-!
# Scans that fail

A scan through code fails where its path leads to no directory. Beyond that nothing but the manifest in this
directory can end it, and of the manifests that cannot be read only those that the reader of manifests does
not expect: bytes that are no text, numbers and nested values that are too large, and a project entry that
is no table. Whatever else the files hold, the scan reads them or passes over them.
-/

namespace EnvFill.Project

open Storage Ignore Text

variable {disk other : Disk} {path : Pathname} {root : Location} {extra : List String} {maxDepth : Int}
  {bytes : List UInt8} {text : List Char} {error : Error}

inductive ManifestFails (bytes : List UInt8) : Error → Prop where
  | notText (htext : ∀ text, bytes ≠ Utf8.encodeText text) : ManifestFails bytes .notUtf8
  | fault {text : List Char} {fault : Toml.Fault} (htext : bytes = Utf8.encodeText text)
      (hparse : Toml.parse text = .error fault) (hfault : fault ≠ .malformed) :
      ManifestFails bytes (.badManifest fault)
  | notTable {text : List Char} {table : Toml.Table} {value : Toml.Value}
      (htext : bytes = Utf8.encodeText text) (hparse : Toml.parse text = .ok table)
      (hproject : table.lookup "project" = some value) (hvalue : ∀ entries, value ≠ .table entries) :
      ManifestFails bytes .projectNotTable

inductive ScanFails (disk : Disk) (path : Pathname) : Error → Prop where
  | astray {cause : DiskError} (hpath : disk.resolve path = .error cause) :
      ScanFails disk path (.notFollowed cause)
  | rootTooLong {place : Location} (hpath : disk.resolve path = .ok place)
      (hlong : disk.locate? (.ofRoot place) = .error .nameTooLong) :
      ScanFails disk path (.notFollowed .nameTooLong)
  | notDirectory {place : Location} (hpath : disk.resolve path = .ok place)
      (hdir : disk.isDir (.ofRoot place) = .ok false) : ScanFails disk path (.notScannable place)
  | manifestTooLong {root : Location} {node : Node} (hroot : scanRoot disk path = .ok (root, node))
      (hlong : disk.locate? (.ofRoot (root ++ [manifestFile])) = .error .nameTooLong) :
      ScanFails disk path (.notFollowed .nameTooLong)
  | manifest {root : Location} {node : Node} {bytes : List UInt8} {error : Error}
      (hroot : scanRoot disk path = .ok (root, node))
      (hread : disk.bytes? (.ofRoot (root ++ [manifestFile])) = .ok (some bytes))
      (hbytes : ManifestFails bytes error) : ScanFails disk path error

/-! ### Manifests -/

theorem isOwnEntry_eq_error_iff {entry : Option Toml.Value} : isOwnEntry entry = .error error ↔
    error = .projectNotTable ∧ ∃ value, entry = some value ∧ ∀ entries, value ≠ .table entries := by
  unfold isOwnEntry
  split
  · simp
  · split <;> simp
  · rename_i value hvalue
    constructor
    · intro herror
      exact ⟨(Except.error.inj herror).symm, value, rfl, hvalue⟩
    · rintro ⟨rfl, -⟩
      rfl

theorem manifestFails_encodeText_iff : ManifestFails (Utf8.encodeText text) error ↔
    (∃ fault, Toml.parse text = .error fault ∧ fault ≠ .malformed ∧ error = .badManifest fault) ∨
      ∃ table, Toml.parse text = .ok table ∧ error = .projectNotTable ∧
        ∃ value, table.lookup "project" = some value ∧ ∀ entries, value ≠ .table entries := by
  have hsame : ∀ other, Utf8.encodeText text = Utf8.encodeText other → text = other := by
    intro other hother
    rw [← Utf8.decodeLossy_encodeText text, hother, Utf8.decodeLossy_encodeText]
  constructor
  · rintro (hnone | ⟨htext, hparse, hfault⟩ | ⟨htext, hparse, hproject, hvalue⟩)
    · exact absurd rfl (hnone text)
    · obtain rfl := hsame _ htext
      exact .inl ⟨_, hparse, hfault, rfl⟩
    · obtain rfl := hsame _ htext
      exact .inr ⟨_, hparse, rfl, _, hproject, hvalue⟩
  · rintro (⟨fault, hparse, hfault, rfl⟩ | ⟨table, hparse, rfl, value, hproject, hvalue⟩)
    · exact .fault rfl hparse hfault
    · exact .notTable rfl hparse hproject hvalue

/-- A manifest that is merely not well written is no failure. -/
theorem isOwnManifest_eq_error_iff : isOwnManifest bytes = .error error ↔ ManifestFails bytes error := by
  unfold isOwnManifest
  cases hdecode : Utf8.decodeStrict? bytes with
  | none =>
    have htext : ∀ text, bytes ≠ Utf8.encodeText text := by
      intro text heq
      rw [Utf8.decodeStrict?_eq_some_iff_encodeText.mpr heq] at hdecode
      cases hdecode
    constructor
    · intro herror
      obtain rfl := Except.error.inj herror
      exact .notText htext
    · rintro (_ | ⟨hother, -, -⟩ | ⟨hother, -, -, -⟩)
      · rfl
      · exact absurd hother (htext _)
      · exact absurd hother (htext _)
  | some text =>
    rw [Utf8.decodeStrict?_eq_some_iff_encodeText.mp hdecode, manifestFails_encodeText_iff]
    dsimp only
    cases hparse : Toml.parse text with
    | error fault => cases fault <;> simp [eq_comm]
    | ok table => simp [isOwnEntry_eq_error_iff]

/-! ### Failures -/

theorem scanRoot_eq_error_iff : scanRoot disk path = .error error ↔
    (∃ cause, disk.resolve path = .error cause ∧ error = .notFollowed cause) ∨
      ∃ place, disk.resolve path = .ok place ∧
        (disk.locate? (.ofRoot place) = .error .nameTooLong ∧ error = .notFollowed .nameTooLong ∨
          disk.isDir (.ofRoot place) = .ok false ∧ error = .notScannable place) := by
  simp only [scanRoot, except_bind_eq_error_iff, followed_eq_error_iff, followed_eq_ok_iff,
    Disk.findPlace_eq_error_iff]
  refine or_congr_right (exists_congr fun place => and_congr_right fun _ => or_congr ?_ ?_)
  · simp
  · simp only [Disk.isDir_eq_ok_iff, ← exists_and_right, and_assoc]
    refine exists_congr fun found => and_congr_right fun _ => ?_
    cases found with
    | none => simp [except_throw_eq, eq_comm]
    | some folder =>
      rw [Option.bind_some]
      dsimp only
      split
      · rename_i hget
        rw [hget]
        simp [pure, Except.pure, Node.isDir]
      · rename_i hother
        have hdir : (disk.top.get? folder).any Node.isDir = false := by
          rw [Option.any_eq_false]
          rintro (_ | _ | entries) hget
          · rfl
          · rfl
          · exact absurd hget (hother entries)
        simp [except_throw_eq, hdir, eq_comm]

theorem isOwnProject_eq_error_iff : isOwnProject disk (.ofRoot root) = .error error ↔
    disk.locate? (.ofRoot (root ++ [manifestFile])) = .error .nameTooLong ∧
        error = .notFollowed .nameTooLong ∨
      ∃ bytes, disk.bytes? (.ofRoot (root ++ [manifestFile])) = .ok (some bytes) ∧
        ManifestFails bytes error := by
  rw [isOwnProject_eq]
  simp only [except_bind_eq_error_iff, followed_eq_error_iff, followed_eq_ok_iff,
    Disk.bytes?_eq_error_iff]
  refine or_congr (by simp) ?_
  constructor
  · rintro ⟨_ | bytes, hread, hbytes⟩
    · cases hbytes
    · exact ⟨bytes, hread, isOwnManifest_eq_error_iff.mp hbytes⟩
  · rintro ⟨bytes, hread, hbytes⟩
    exact ⟨some bytes, hread, isOwnManifest_eq_error_iff.mpr hbytes⟩

/-- Patterns that are valid end no scan. -/
theorem scanCode_eq_error_iff
    (hextra : ∀ line ∈ extra, ∃ pattern, Pattern.parse? line = .ok pattern) :
    scanCode disk path extra maxDepth = .error error ↔ scanRoot disk path = .error error ∨
      ∃ root node, scanRoot disk path = .ok (root, node) ∧
        isOwnProject disk (.ofRoot root) = .error error := by
  simp only [scanCode, except_bind_eq_error_iff, Prod.exists]
  refine or_congr_right (exists_congr fun root => exists_congr fun node => and_congr_right fun _ => ?_)
  rw [or_iff_left_iff_imp]
  rintro ⟨own, -, herror⟩
  obtain ⟨filter, hbuild, -⟩ := ScanFilter.exists_build own hextra
  rw [hbuild] at herror
  cases herror

theorem scanCode_eq_error_iff_fails
    (hextra : ∀ line ∈ extra, ∃ pattern, Pattern.parse? line = .ok pattern) :
    scanCode disk path extra maxDepth = .error error ↔ ScanFails disk path error := by
  rw [scanCode_eq_error_iff hextra, scanRoot_eq_error_iff]
  simp only [isOwnProject_eq_error_iff]
  constructor
  · rintro ((⟨cause, hpath, rfl⟩ | ⟨place, hpath, ⟨hlong, rfl⟩ | ⟨hdir, rfl⟩⟩) |
      ⟨root, node, hroot, ⟨hlong, rfl⟩ | ⟨bytes, hread, hbytes⟩⟩)
    · exact .astray hpath
    · exact .rootTooLong hpath hlong
    · exact .notDirectory hpath hdir
    · exact .manifestTooLong hroot hlong
    · exact .manifest hroot hread hbytes
  · rintro (hpath | ⟨hpath, hlong⟩ | ⟨hpath, hdir⟩ | ⟨hroot, hlong⟩ | ⟨hroot, hread, hbytes⟩)
    · exact .inl (.inl ⟨_, hpath, rfl⟩)
    · exact .inl (.inr ⟨_, hpath, .inl ⟨hlong, rfl⟩⟩)
    · exact .inl (.inr ⟨_, hpath, .inr ⟨hdir, rfl⟩⟩)
    · exact .inr ⟨_, _, hroot, .inl ⟨hlong, rfl⟩⟩
    · exact .inr ⟨_, _, hroot, .inr ⟨_, hread, hbytes⟩⟩

/-- A failure stays where the contents of files change, but for the manifest in the root. -/
theorem ScanFails.of_emptied_eq (hfails : ScanFails disk path error) (hsame : other.emptied = disk.emptied)
    (hmanifest : ∀ root node, scanRoot disk path = .ok (root, node) →
      other.bytes? (.ofRoot (root ++ [manifestFile])) = disk.bytes? (.ofRoot (root ++ [manifestFile]))) :
    ScanFails other path error := by
  have hresolve := Disk.resolve_eq_of_emptied_eq hsame path
  have hlocate := Disk.locate?_eq_of_emptied_eq hsame
  cases hfails with
  | astray hpath => exact .astray (hresolve.trans hpath)
  | rootTooLong hpath hlong => exact .rootTooLong (hresolve.trans hpath) ((hlocate _).trans hlong)
  | notDirectory hpath hdir =>
    exact .notDirectory (hresolve.trans hpath) ((Disk.isDir_eq_of_emptied_eq hsame _).trans hdir)
  | manifestTooLong hroot hlong =>
    obtain ⟨twin, htwin⟩ := exists_scanRoot_of_emptied_eq hsame hroot
    exact .manifestTooLong htwin ((hlocate _).trans hlong)
  | manifest hroot hread hbytes =>
    obtain ⟨twin, htwin⟩ := exists_scanRoot_of_emptied_eq hsame hroot
    exact .manifest htwin ((hmanifest _ _ hroot).trans hread) hbytes

/-- **A scan fails at its root or at the manifest there.** With valid patterns, it says that the root is no
directory exactly if this is so. A directory is scanned unless its manifest is no text, holds too long a
number or too many brackets, or gives a project that is no table. What other files hold never matters. -/
theorem scans_fail_just_where
    (hextra : ∀ line ∈ extra, ∃ pattern, Pattern.parse? line = .ok pattern) :
    (∀ error, scanCode disk path extra maxDepth = .error error ↔ ScanFails disk path error) ∧
      (∀ place, scanCode disk path extra maxDepth = .error (.notScannable place) ↔
        disk.resolve path = .ok place ∧ disk.isDir (.ofRoot place) = .ok false) ∧
      (∀ fault, scanCode disk path extra maxDepth = .error (.badManifest fault) →
        ∃ root node text, scanRoot disk path = .ok (root, node) ∧
          disk.bytes? (.ofRoot (root ++ [manifestFile])) = .ok (some (Utf8.encodeText text)) ∧
            fault ≠ .malformed ∧ fault.ShowsIn 0 text) ∧
      ∀ other : Disk, other.emptied = disk.emptied →
        (∀ root node, scanRoot disk path = .ok (root, node) →
          other.bytes? (.ofRoot (root ++ [manifestFile])) =
            disk.bytes? (.ofRoot (root ++ [manifestFile]))) →
          ∀ error, scanCode other path extra maxDepth = .error error ↔
            scanCode disk path extra maxDepth = .error error := by
  have hfails : ∀ disk error, scanCode disk path extra maxDepth = .error error ↔ ScanFails disk path error :=
    fun _ _ => scanCode_eq_error_iff_fails hextra
  simp only [hfails, implies_true, true_and]
  refine ⟨fun place => ?_, fun fault hfault => ?_, fun other hsame hmanifest error => ?_⟩
  · constructor
    · rintro (_ | _ | ⟨hpath, hdir⟩ | _ | ⟨-, -, hbytes⟩)
      · exact ⟨hpath, hdir⟩
      · cases hbytes
    · rintro ⟨hpath, hdir⟩
      exact .notDirectory hpath hdir
  · rcases hfault with _ | _ | _ | _ | ⟨hroot, hread, hbytes⟩
    rcases hbytes with _ | ⟨rfl, hparse, hother⟩ | _
    exact ⟨_, _, _, hroot, hread, hother, Toml.showsIn_of_parse hparse⟩
  · refine ⟨fun hfails => hfails.of_emptied_eq hsame.symm fun root node hroot => ?_,
      fun hfails => hfails.of_emptied_eq hsame hmanifest⟩
    obtain ⟨twin, htwin⟩ := exists_scanRoot_of_emptied_eq hsame.symm hroot
    exact (hmanifest root twin htwin).symm

def manifestDisk (bytes : List UInt8) : Disk := projectDisk [(manifestFile, .file bytes)]

theorem isFolder_manifestDisk (bytes : List UInt8) :
    IsFolder (manifestDisk bytes) ["app"] [(manifestFile, .file bytes)] :=
  isFolder_projectDisk rfl

theorem scanRoot_manifestDisk (bytes : List UInt8) : scanRoot (manifestDisk bytes) (.ofRoot ["app"]) =
    .ok (["app"], .dir [(manifestFile, .file bytes)]) :=
  scanRoot_of_isFolder (isFolder_manifestDisk bytes)

theorem bytes?_manifestDisk (bytes : List UInt8) :
    (manifestDisk bytes).bytes? (.ofRoot (["app"] ++ [manifestFile])) = .ok (some bytes) := by
  rw [(isFolder_manifestDisk bytes).bytes?_eq_ok_iff (by decide) (by decide)]
  exact ⟨by decide, by decide, by simp [Node.bytes?]⟩

theorem scanCode_manifestDisk_eq_error_iff
    (hextra : ∀ line ∈ extra, ∃ pattern, Pattern.parse? line = .ok pattern) :
    scanCode (manifestDisk bytes) (.ofRoot ["app"]) extra maxDepth = .error error ↔
      ManifestFails bytes error := by
  have hown : isOwnProject (manifestDisk bytes) (.ofRoot ["app"]) = isOwnManifest bytes := by
    rw [isOwnProject_eq, bytes?_manifestDisk]
    rfl
  rw [scanCode_eq_error_iff hextra, scanRoot_manifestDisk]
  simp [hown, isOwnManifest_eq_error_iff]

/-- A project whose manifest breaks off is scanned. -/
theorem scans_pass_over_broken_manifest :
    (∃ code, scanCode (manifestDisk (Utf8.encodeText "[project\nname = ".toList)) (.ofRoot ["app"])
      ["*.min.js"] 32 = .ok code) ∧
        ∀ error, ¬ScanFails (manifestDisk (Utf8.encodeText "[project\nname = ".toList)) (.ofRoot ["app"])
          error := by
  have hextra : ∀ line ∈ ["*.min.js"], ∃ pattern, Pattern.parse? line = .ok pattern := by
    intro line hline
    rw [List.mem_singleton.mp hline]
    exact exists_parse?_of_isOk (by decide +kernel)
  have hparse : Toml.parse "[project\nname = ".toList = .error .malformed := by cbv
  have hscan : ∀ error, scanCode (manifestDisk (Utf8.encodeText "[project\nname = ".toList))
      (.ofRoot ["app"]) ["*.min.js"] 32 ≠ .error error := by
    intro error
    rw [Ne, scanCode_manifestDisk_eq_error_iff hextra, manifestFails_encodeText_iff, hparse]
    simp
  refine ⟨?_, fun error hfails => hscan error (((scans_fail_just_where hextra).1 error).mpr hfails)⟩
  cases hcode : scanCode (manifestDisk (Utf8.encodeText "[project\nname = ".toList)) (.ofRoot ["app"])
      ["*.min.js"] 32 with
  | ok code => exact ⟨code, rfl⟩
  | error error => exact absurd hcode (hscan error)

/-- **A manifest ends the scan of a directory.** One says that the project is a number, and the other is
no text. -/
theorem scans_fail_for_manifest :
    (∀ bytes, (manifestDisk bytes).isDir (.ofRoot ["app"]) = .ok true) ∧
      scanCode (manifestDisk (Utf8.encodeText "project = 1".toList)) (.ofRoot ["app"]) [] 32 =
          .error .projectNotTable ∧
        scanCode (manifestDisk [255]) (.ofRoot ["app"]) [] 32 = .error .notUtf8 := by
  have hextra : ∀ line ∈ [], ∃ pattern, Pattern.parse? line = .ok pattern := by simp
  have hparse : Toml.parse "project = 1".toList = .ok [("project", .scalar)] := by cbv
  have hnone : Utf8.decodeStrict? [255] = none := by cbv
  refine ⟨fun bytes => ?_, ?_, ?_⟩
  · have hfolder := isFolder_manifestDisk bytes
    rw [Disk.isDir_eq_ok_iff]
    refine ⟨some ["app"], Disk.findPlace_eq_some_iff.mpr hfolder.locate?_eq, ?_⟩
    rw [Option.bind_some, hfolder.get_eq]
    rfl
  · exact (scanCode_manifestDisk_eq_error_iff hextra).mpr (.notTable rfl hparse rfl (by simp))
  · refine (scanCode_manifestDisk_eq_error_iff hextra).mpr (.notText fun text htext => ?_)
    rw [Utf8.decodeStrict?_eq_some_iff_encodeText.mpr htext] at hnone
    cases hnone

end EnvFill.Project
