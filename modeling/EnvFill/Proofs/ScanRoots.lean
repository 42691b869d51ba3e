import EnvFill.Project.Scan
import EnvFill.Proofs.Folders
import EnvFill.Proofs.Results

/-!
# Where a scan begins

A scan begins at the directory that its path leads to. This is known by its names from the top, so what
lies in it is found entry by entry, whatever links there are elsewhere.
-/

namespace EnvFill.Storage

open Node

variable {top node : Node} {links : Nat} {place found root : Location} {steps : List String}
  {disk : Disk} {path : Pathname} {entries : List (String × Node)} {name : String} {bytes : List UInt8}

def IsEntryName (name : String) : Prop := IsName name ∧ isTooLong name = false

theorem ne_empty_of_mem_linkSteps {target : String} : ∀ step ∈ linkSteps target, step ≠ "" := by
  intro step hstep
  rcases List.mem_append.mp hstep with hstep | hstep
  · simpa using (List.mem_filter.mp hstep).2
  · split at hstep
    · rw [List.mem_singleton.mp hstep]
      decide
    · simp at hstep

theorem isEntryName_concat (hplace : ∀ name ∈ place, IsEntryName name) (hname : IsEntryName name) :
    ∀ other ∈ place ++ [name], IsEntryName other := by
  intro other hother
  rcases List.mem_append.mp hother with hother | hother
  · exact hplace other hother
  · rwa [List.mem_singleton.mp hother]

/-- A path that is followed ends at a place with names that may stand in directories. -/
theorem isEntryName_of_locateFrom? (hsteps : ∀ step ∈ steps, step ≠ "")
    (hplace : ∀ name ∈ place, IsEntryName name) (hfound : locateFrom? top links place steps = .ok found) :
    ∀ name ∈ found, IsEntryName name := by
  -- a name is added by a directory or a file that is entered, and a link is followed from above
  fun_induction locateFrom? top links place steps with
  | case1 links place =>
    obtain rfl := Except.ok.inj hfound
    exact hplace
  | case2 links place rest ih =>
    exact ih (fun step hstep => hsteps step (List.mem_cons_of_mem _ hstep)) hplace hfound
  | case3 links place rest _ ih =>
    apply ih (fun step hstep => hsteps step (List.mem_cons_of_mem _ hstep)) _ hfound
    exact fun name hname => hplace name (List.dropLast_subset place hname)
  | case4 => simp at hfound
  | case5 => simp at hfound
  | case6 links place step rest hdot hdots hshort entries hget ih =>
    obtain ⟨hempty, hrest⟩ := List.forall_mem_cons.mp hsteps
    have hname : IsEntryName step := ⟨⟨hempty, hdot, hdots⟩, by simpa using hshort⟩
    exact ih hrest (isEntryName_concat hplace hname) hfound
  | case7 links place step rest hdot hdots hshort bytes hget hnil =>
    obtain ⟨hempty, -⟩ := List.forall_mem_cons.mp hsteps
    have hname : IsEntryName step := ⟨⟨hempty, hdot, hdots⟩, by simpa using hshort⟩
    obtain rfl := Except.ok.inj hfound
    exact isEntryName_concat hplace hname
  | case8 => simp at hfound
  | case9 => simp at hfound
  | case10 place step rest hdot hdots hshort target hget links ih =>
    obtain ⟨-, hrest⟩ := List.forall_mem_cons.mp hsteps
    refine ih ?_ ?_ hfound
    · intro other hother
      rcases List.mem_append.mp hother with hother | hother
      · exact ne_empty_of_mem_linkSteps other hother
      · exact hrest other hother
    · unfold linkStart
      split
      · simp
      · exact hplace

/-! ### Paths that cannot be followed -/

theorem locateFrom?_error_cases {error : DiskError}
    (herror : locateFrom? top links place steps = .error error) :
    error = .nameTooLong ∨ error.isAbsence = true := by
  fun_induction locateFrom? top links place steps
  case case1 | case7 => cases herror
  case case2 ih | case3 ih | case6 ih | case10 ih => exact ih herror
  case case4 => exact .inl (Except.error.inj herror).symm
  case case5 | case8 | case9 => exact .inr (Except.error.inj herror ▸ rfl)

theorem Disk.locate?_error_cases {error : DiskError} (herror : disk.locate? path = .error error) :
    error = .nameTooLong ∨ error.isAbsence = true := by
  unfold Disk.locate? at herror
  rcases except_bind_eq_error_iff.mp herror with htext | ⟨_, -, hsteps⟩
  · unfold Disk.checkText at htext
    split at htext
    · exact .inr (Except.error.inj htext ▸ rfl)
    · split at htext
      · exact .inl (Except.error.inj htext).symm
      · cases htext
  · exact locateFrom?_error_cases hsteps

/-- A path that cannot be followed is one on which nothing lies, unless it meets a name that is too long. -/
theorem Disk.findPlace_eq_error_iff {error : DiskError} : disk.findPlace path = .error error ↔
    disk.locate? path = .error .nameTooLong ∧ error = .nameTooLong := by
  unfold Disk.findPlace
  cases hlocate : disk.locate? path with
  | ok place => simp
  | error cause =>
    rcases Disk.locate?_error_cases hlocate with rfl | habsence
    · simp [DiskError.isAbsence, eq_comm]
    · have hcause : cause ≠ .nameTooLong := by
        rintro rfl
        cases habsence
      simp [habsence, hcause]

theorem Disk.bytes?_eq_error_iff {error : DiskError} : disk.bytes? path = .error error ↔
    disk.locate? path = .error .nameTooLong ∧ error = .nameTooLong := by
  unfold Disk.bytes? Disk.find
  rw [except_map_eq_error_iff, except_map_eq_error_iff, Disk.findPlace_eq_error_iff]

theorem Disk.isDir_eq_ok_iff {answer : Bool} : disk.isDir path = .ok answer ↔
    ∃ place, disk.findPlace path = .ok place ∧
      ((place.bind fun place => disk.top.get? place).any Node.isDir) = answer := by
  unfold Disk.isDir Disk.find
  simp only [except_map_eq_ok_iff, exists_exists_and_eq_and]

end EnvFill.Storage

namespace EnvFill.Project

open Storage Ignore Node Fill Text

variable {disk : Disk} {path : Pathname} {root : Location} {node : Node} {extra : List String}
  {maxDepth : Int} {code : CodeScan} {name : String} {bytes : List UInt8}

theorem scanRoot_returns_iff : scanRoot disk path = .ok (root, node) ↔
    ∃ place, disk.resolve path = .ok place ∧ disk.locate? (.ofRoot place) = .ok root ∧
      disk.top.get? root = some node ∧ node.isDir = true := by
  simp only [scanRoot, except_bind_eq_ok_iff, followed_eq_ok_iff]
  refine exists_congr fun place => and_congr_right fun _ => ?_
  constructor
  · rintro ⟨folder, hfolder, hroot⟩
    cases folder with
    | none => simp [except_throw_eq] at hroot
    | some folder =>
      dsimp only at hroot
      split at hroot
      · rename_i entries hget
        obtain ⟨rfl, rfl⟩ := Prod.mk.inj (Except.ok.inj hroot)
        exact ⟨Disk.findPlace_eq_some_iff.mp hfolder, hget, rfl⟩
      · simp [except_throw_eq] at hroot
  · rintro ⟨hplace, hget, hdir⟩
    refine ⟨some root, Disk.findPlace_eq_some_iff.mpr hplace, ?_⟩
    cases node with
    | dir entries =>
      dsimp only
      rw [hget]
      rfl
    | file bytes => simp [Node.isDir] at hdir
    | link target => simp [Node.isDir] at hdir

theorem isEntryName_of_scanRoot (hroot : scanRoot disk path = .ok (root, node)) :
    ∀ name ∈ root, IsEntryName name := by
  obtain ⟨place, hplace, hlocate, -, -⟩ := scanRoot_returns_iff.mp hroot
  obtain ⟨-, hfrom⟩ := Disk.locate?_eq_ok_iff.mp hlocate
  refine isEntryName_of_locateFrom? ?_ ?_ hfrom
  · exact fun step hstep => (Disk.isName_of_resolve hplace step hstep).1
  · exact fun name hname => absurd hname List.not_mem_nil

theorem scanCode_returns_iff : scanCode disk path extra maxDepth = .ok code ↔
    ∃ root node own filter, scanRoot disk path = .ok (root, node) ∧
      isOwnProject disk (.ofRoot root) = .ok own ∧
        ScanFilter.build (extra ++ if own then ownPatterns else []) = .ok filter ∧
          code = scanCodeIn disk root node filter maxDepth := by
  simp only [scanCode, except_bind_eq_ok_iff, Prod.exists]
  refine exists_congr fun root => exists_congr fun node => ?_
  constructor
  · rintro ⟨hroot, own, hown, hcode⟩
    split at hcode
    · simp [except_throw_eq] at hcode
    · rename_i filter hbuild
      exact ⟨own, filter, hroot, hown, hbuild, (Except.ok.inj hcode).symm⟩
  · rintro ⟨own, filter, hroot, hown, hbuild, rfl⟩
    refine ⟨hroot, own, hown, ?_⟩
    rw [hbuild]
    rfl

def keysNamed (content : Option (List UInt8)) : List String :=
  match content with
  | none => []
  | some bytes => if looksLikeText bytes then variableKeys (lines (Utf8.decodeLossy bytes)) else []

/-- A text that was encoded is named by its own lines. -/
theorem keysNamed_encodeText (text : List Char) : keysNamed (some (Utf8.encodeText text)) =
    if looksLikeText (Utf8.encodeText text) then variableKeys (lines text) else [] := by
  rw [keysNamed, Utf8.decodeLossy_encodeText]

theorem variablesOfFile_returns_iff {keys : List String} : variablesOfFile disk root name = .ok keys ↔
    ∃ content, disk.bytes? (.ofRoot (root ++ [name])) = .ok content ∧ keys = keysNamed content := by
  simp only [variablesOfFile, except_bind_eq_ok_iff, followed_eq_ok_iff]
  refine exists_congr fun content => and_congr_right fun _ => ?_
  cases content with
  | none => exact ⟨fun hkeys => (Except.ok.inj hkeys).symm, fun hkeys => congrArg Except.ok hkeys.symm⟩
  | some bytes => exact ⟨fun hkeys => (Except.ok.inj hkeys).symm, fun hkeys => congrArg Except.ok hkeys.symm⟩

def contentOf (disk : Disk) (file : Pathname) : Option (List UInt8) := (disk.bytes? file).toOption.join

theorem contentOf_eq {file : Pathname} {content : Option (List UInt8)}
    (hcontent : disk.bytes? file = .ok content) : contentOf disk file = content := by
  rw [contentOf, hcontent]
  cases content <;> rfl

/-- A scan through settings files returns if each of them can be looked at. -/
theorem scanSettings_returns_iff {found : Found} : scanSettings disk path = .ok found ↔
    ∃ root node, scanRoot disk path = .ok (root, node) ∧
      (∀ file ∈ Name.sourceFiles, ∃ content, disk.bytes? (.ofRoot (root ++ [file])) = .ok content) ∧
        found = .ofMentions (Name.sourceFiles.map fun file =>
          (keysNamed (contentOf disk (.ofRoot (root ++ [file])))).map fun key => (key, file)).flatten := by
  simp only [scanSettings, except_bind_eq_ok_iff, Prod.exists]
  refine exists_congr fun root => exists_congr fun node => ?_
  have hfile : ∀ file ∈ Name.sourceFiles, ∀ mentions,
      (do return (← variablesOfFile disk root file).map fun key => (key, file)) = .ok mentions ↔
        (∃ content, disk.bytes? (.ofRoot (root ++ [file])) = .ok content) ∧
          mentions = (keysNamed (contentOf disk (.ofRoot (root ++ [file])))).map fun key =>
            (key, file) := by
    intro file _ mentions
    simp only [except_bind_eq_ok_iff, variablesOfFile_returns_iff]
    constructor
    · rintro ⟨_, ⟨content, hcontent, rfl⟩, hmentions⟩
      rw [contentOf_eq hcontent]
      exact ⟨⟨content, hcontent⟩, (Except.ok.inj hmentions).symm⟩
    · rintro ⟨⟨content, hcontent⟩, rfl⟩
      rw [contentOf_eq hcontent]
      exact ⟨_, ⟨content, hcontent, rfl⟩, rfl⟩
  simp only [mapM_eq_ok_iff hfile]
  constructor
  · rintro ⟨hroot, _, ⟨hread, rfl⟩, hfound⟩
    exact ⟨hroot, hread, (Except.ok.inj hfound).symm⟩
  · rintro ⟨hroot, hread, rfl⟩
    exact ⟨hroot, _, ⟨hread, rfl⟩, rfl⟩

end EnvFill.Project
