import EnvFill.Proofs.FoundNames
import EnvFill.Proofs.ScannedFolder

/-!
# Scans through code

The walk below a directory comes to its subdirectories, and the files that it finds there hold the
references. A scan of either kind is compared with the same scan after a file of the folder changed.
-/

namespace EnvFill

theorem mem_putPair {κ ν : Type} [DecidableEq κ] {key : κ} {value : ν} {pair : κ × ν}
    {pairs : List (κ × ν)} (hpair : pair ∈ putPair key value pairs) :
    pair = (key, value) ∨ pair ∈ pairs := by
  induction pairs with
  | nil => exact .inl (List.mem_singleton.mp hpair)
  | cons first rest ih =>
    unfold putPair at hpair
    split at hpair
    · exact (List.mem_cons.mp hpair).imp_right (List.mem_cons_of_mem first)
    · rcases List.mem_cons.mp hpair with rfl | hrest
      · exact .inr List.mem_cons_self
      · exact (ih hrest).imp_right (List.mem_cons_of_mem first)

end EnvFill

namespace EnvFill.Storage

open Node

variable {enters : Location → Bool} {path : Location} {entries : List (String × Node)}
  {visit : Visit}

theorem mem_byName {α : Type} {pairs : List (String × α)} {pair : String × α} :
    pair ∈ Sorted.byName pairs ↔ pair ∈ pairs :=
  List.mem_mergeSort

theorem mem_walkEntries_iff {walk : String × List Visit} :
    walk ∈ walkEntries enters path entries ↔ ∃ entry ∈ entries, walk = walkEntry enters path entry := by
  induction entries with
  | nil => simp [walkEntries]
  | cons entry rest ih => simp [walkEntries, ih]

/-- A walk below a directory visits it, and then what the walks below the entered ones visit. -/
theorem mem_walkFrom_dir_iff :
    visit ∈ walkFrom enters path (.dir entries) ↔
      visit = ⟨path, entries⟩ ∨ ∃ entry ∈ entries, enters (path ++ [entry.1]) = true ∧
        visit ∈ walkFrom enters (path ++ [entry.1]) entry.2 := by
  rw [walkFrom, List.mem_cons, List.mem_flatMap]
  refine or_congr_right ⟨?_, ?_⟩
  · rintro ⟨walk, hwalk, hvisit⟩
    obtain ⟨⟨name, node⟩, hentry, rfl⟩ := mem_walkEntries_iff.mp (mem_byName.mp hwalk)
    unfold walkEntry at hvisit
    dsimp only at hvisit
    split at hvisit
    · rename_i henters
      exact ⟨(name, node), hentry, henters, hvisit⟩
    · simp at hvisit
  · rintro ⟨⟨name, node⟩, hentry, henters, hvisit⟩
    refine ⟨walkEntry enters path (name, node),
      mem_byName.mpr (mem_walkEntries_iff.mpr ⟨(name, node), hentry, rfl⟩), ?_⟩
    unfold walkEntry
    dsimp only at henters ⊢
    rwa [if_pos henters]

theorem linkCount_of_mem {entry : String × Node} (hcount : entriesLinkCount entries = 0)
    (hentry : entry ∈ entries) : entry.2.linkCount = 0 := by
  induction entries with
  | nil => simp at hentry
  | cons first rest ih =>
    obtain ⟨name, child⟩ := first
    rw [entriesLinkCount, entryLinkCount, Nat.add_eq_zero_iff] at hcount
    rcases List.mem_cons.mp hentry with rfl | hrest
    · exact hcount.1
    · exact ih hcount.2 hrest

/-- Where no link lies below a directory, none lies in those that a walk comes to. -/
theorem linkCount_of_mem_walkFrom {node : Node} {path : Location} (hcount : node.linkCount = 0)
    (hvisit : visit ∈ walkFrom enters path node) : entriesLinkCount visit.entries = 0 := by
  match node with
  | .file _ => simp [walkFrom] at hvisit
  | .link _ => simp [walkFrom] at hvisit
  | .dir entries =>
    have hentries : entriesLinkCount entries = 0 := by rwa [linkCount] at hcount
    rcases mem_walkFrom_dir_iff.mp hvisit with rfl | ⟨entry, hentry, -, hbelow⟩
    · exact hentries
    · exact linkCount_of_mem_walkFrom (linkCount_of_mem hentries hentry) hbelow
  termination_by sizeOf node
  decreasing_by
    have hsize := List.sizeOf_lt_of_mem hentry
    obtain ⟨name, child⟩ := entry
    simp only [Prod.mk.sizeOf_spec, Node.dir.sizeOf_spec] at hsize ⊢
    omega

/-- A file put into the directory that a walk begins at changes what is visited first, and nothing
else. -/
theorem mem_walkFrom_put {name : String} {bytes : List UInt8}
    (hvisit : visit ∈ walkFrom enters path (.dir (putPair name (.file bytes) entries))) :
    visit = ⟨path, putPair name (.file bytes) entries⟩ ∨
      visit ∈ walkFrom enters path (.dir entries) := by
  rcases mem_walkFrom_dir_iff.mp hvisit with rfl | ⟨entry, hentry, henters, hbelow⟩
  · exact .inl rfl
  · rcases mem_putPair hentry with rfl | hentry
    · simp [walkFrom] at hbelow
    · exact .inr (mem_walkFrom_dir_iff.mpr (.inr ⟨entry, hentry, henters, hbelow⟩))

end EnvFill.Storage

namespace EnvFill.Project

open Storage Node EnvFile Fill Ignore Text

variable {disk : Disk} {folder : Location} {entries : List (String × Node)} {name key : String}
  {filter : ScanFilter} {maxDepth : Int} {extraIgnore known : List String} {found : Found}

theorem mem_namesReferred_iff {content : Option (List UInt8)} :
    key ∈ namesReferred content ↔ ∃ bytes, content = some bytes ∧ looksLikeText bytes = true ∧
      key ∈ Name.candidates (Utf8.decodeLossy bytes) := by
  cases content with
  | none => simp [namesReferred]
  | some bytes =>
    unfold namesReferred
    split
    · rename_i htext
      simp [htext]
    · rename_i htext
      simp [htext]

theorem entryBytes?_of_linkCount {entry : String × Node} (hcount : entry.2.linkCount = 0) :
    entryBytes? disk folder entry = entry.2.bytes? := by
  obtain ⟨name, node⟩ := entry
  cases node with
  | file bytes => rfl
  | dir entries => rfl
  | link target => simp [linkCount] at hcount

theorem isOpenable_iff {place : Location} : isOpenable place = true ↔
    (Pathname.ofRoot place).toString.utf8ByteSize ≤ maxPathBytes :=
  decide_eq_true_iff

/-- What is above a place that can be opened can be opened. -/
theorem isOpenable_front {front back : Location} (hopenable : isOpenable (front ++ back) = true) :
    isOpenable front = true := by
  rw [isOpenable_iff] at hopenable ⊢
  exact (utf8ByteSize_ofRoot_le front back).trans hopenable

theorem textBytes?_eq_some_iff {entry : String × Node} {bytes : List UInt8} :
    textBytes? disk folder entry = some bytes ↔ isOpenable (folder ++ [entry.1]) = true ∧
      entryBytes? disk folder entry = some bytes ∧ looksLikeText bytes = true := by
  rw [textBytes?, Option.ite_none_right_eq_some, Option.filter_eq_some_iff]

/-- What is read in a directory: the text files in it that can be opened. -/
theorem mem_filesRead_iff {visit : Visit} {text : String} {bytes : List UInt8} :
    (text, bytes) ∈ filesRead disk folder filter visit ↔ ∃ entry ∈ visit.entries,
      isRead filter (visit.path ++ [entry.1]) = true ∧
        textBytes? disk (folder ++ visit.path) entry = some bytes ∧
          text = relativeText (visit.path ++ [entry.1]) := by
  have hlisted : ∀ {entry : String × Node}, textBytes? disk (folder ++ visit.path) entry = some bytes →
      (entry ∈ entriesListed folder visit ↔ entry ∈ visit.entries) := by
    intro entry hbytes
    have hopenable := isOpenable_front (textBytes?_eq_some_iff.mp hbytes).1
    rw [entriesListed, if_pos hopenable, mem_byName]
  unfold filesRead
  simp only [List.mem_filterMap, Option.ite_none_right_eq_some, Option.map_eq_some_iff, Prod.mk.injEq]
  constructor
  · rintro ⟨entry, hentry, hread, _, hbytes, rfl, rfl⟩
    exact ⟨entry, (hlisted hbytes).mp hentry, hread, hbytes, rfl⟩
  · rintro ⟨entry, hentry, hread, hbytes, rfl⟩
    exact ⟨entry, (hlisted hbytes).mpr hentry, hread, bytes, hbytes, rfl, rfl⟩

/-- A variable is found if a file that is read refers to it. -/
theorem mem_names_scanCodeIn {node : Node} (hcount : node.linkCount = 0) :
    key ∈ (scanCodeIn disk folder node filter maxDepth).found.names ↔
      ∃ visit ∈ walkFrom (isEntered filter maxDepth) [] node, ∃ entry ∈ visit.entries,
        isRead filter (visit.path ++ [entry.1]) = true ∧
          isOpenable (folder ++ visit.path ++ [entry.1]) = true ∧
            key ∈ namesReferred entry.2.bytes? := by
  unfold scanCodeIn
  dsimp only
  rw [mem_names_ofMentions]
  simp only [List.mem_flatMap, List.mem_map, Prod.mk.injEq, Prod.exists, mem_filesRead_iff,
    textBytes?_eq_some_iff]
  constructor
  · rintro ⟨_, _, bytes, ⟨visit, hvisit, name, child, hentry, hread, ⟨hopenable, hbytes, htext⟩, rfl⟩,
      _, hcandidate, rfl, rfl⟩
    have hchild := linkCount_of_mem (linkCount_of_mem_walkFrom hcount hvisit) hentry
    rw [entryBytes?_of_linkCount hchild] at hbytes
    exact ⟨visit, hvisit, name, child, hentry, hread, hopenable,
      mem_namesReferred_iff.mpr ⟨bytes, hbytes, htext, hcandidate⟩⟩
  · rintro ⟨visit, hvisit, name, child, hentry, hread, hopenable, hkey⟩
    have hchild := linkCount_of_mem (linkCount_of_mem_walkFrom hcount hvisit) hentry
    obtain ⟨bytes, hbytes, htext, hcandidate⟩ := mem_namesReferred_iff.mp hkey
    have hentryBytes : entryBytes? disk (folder ++ visit.path) (name, child) = some bytes :=
      (entryBytes?_of_linkCount hchild).trans hbytes
    exact ⟨_, relativeText (visit.path ++ [name]), bytes,
      ⟨visit, hvisit, name, child, hentry, hread, ⟨hopenable, hentryBytes, htext⟩, rfl⟩, key, hcandidate,
      rfl, rfl⟩

theorem isOwnProject_eq (disk : Disk) (folder : Location) :
    isOwnProject disk (.ofRoot folder) =
      followed (disk.bytes? (.ofRoot (folder ++ [manifestFile]))) >>= fun content =>
        (content.map isOwnManifest).getD (.ok false) := by
  have hpath : (Pathname.ofRoot folder).join (.ofString manifestFile) =
      .ofRoot (folder ++ [manifestFile]) := by
    have hfile : Pathname.ofString manifestFile = ⟨.current, [manifestFile]⟩ := by decide
    rw [hfile]
    rfl
  unfold isOwnProject
  rw [hpath]
  refine bind_congr fun content => ?_
  cases content <;> rfl

theorem isOwnProject_of_no_manifest (hfolder : IsFolder disk folder entries)
    (hnone : entries.lookup manifestFile = none)
    (htext : Disk.checkText (.ofRoot (folder ++ [manifestFile])) = .ok ()) :
    isOwnProject disk (.ofRoot folder) = .ok false := by
  have hname : IsName manifestFile := by decide
  have hread := (hfolder.bytes?_eq_ok_iff hname (Disk.hasZero_of_checkText htext)).mpr
    ⟨htext, by decide, rfl⟩
  rw [isOwnProject_eq, hread, hnone]
  rfl

theorem scanCode_eq_ok_iff (hfolder : IsFolder disk folder entries) {code : CodeScan} :
    scanCode disk (.ofRoot folder) extraIgnore maxDepth = .ok code ↔
      ∃ own filter, isOwnProject disk (.ofRoot folder) = .ok own ∧
        ScanFilter.build (extraIgnore ++ if own then ownPatterns else []) = .ok filter ∧
          code = scanCodeIn disk folder (.dir entries) filter maxDepth := by
  rw [scanCode_returns_iff]
  have hroot := scanRoot_of_isFolder hfolder
  constructor
  · rintro ⟨_, _, own, filter, hother, hown, hbuild, rfl⟩
    obtain ⟨rfl, rfl⟩ := Prod.mk.inj (Except.ok.inj (hroot.symm.trans hother))
    exact ⟨own, filter, hown, hbuild, rfl⟩
  · rintro ⟨own, filter, hown, hbuild, rfl⟩
    exact ⟨folder, .dir entries, own, filter, hroot, hown, hbuild, rfl⟩

theorem scan_deep_eq_ok_iff {root : Pathname} :
    scan disk root true extraIgnore maxDepth = .ok found ↔
      ∃ code, scanCode disk root extraIgnore maxDepth = .ok code ∧ code.found = found := by
  change (scanCode disk root extraIgnore maxDepth).map CodeScan.found = _ ↔ _
  cases scanCode disk root extraIgnore maxDepth with
  | ok code => simp [Except.map]
  | error error => simp [Except.map]

/-- A file that holds `bytes` instead of `content` names nothing new but what is known. -/
structure NamesOnly (name : String) (content : Option (List UInt8)) (bytes : List UInt8)
    (known : List String) : Prop where
  keys : ∀ key ∈ keysNamed (some bytes), key ∈ keysNamed content ∨ key ∈ known
  references : Name.runtimeFiles.contains name = false → Name.isCodeFile name = true →
    ∀ key ∈ namesReferred (some bytes), key ∈ namesReferred content ∨ key ∈ known

section Change

variable {content : Option (List UInt8)} {bytes : List UInt8}
  (hfolder : IsFolder disk folder entries) (hcontent : entries.lookup name = content.map .file)

include hfolder hcontent

theorem exists_scanSettings_put (honly : NamesOnly name content bytes known)
    (hscan : scanSettings disk (.ofRoot folder) = .ok found) :
    ∃ later, scanSettings (disk.put (folder ++ [name]) (.file bytes)) (.ofRoot folder) = .ok later ∧
      ∀ key ∈ later.names, key ∈ found.names ∨ key ∈ known := by
  have hafter : IsFolder (disk.put (folder ++ [name]) (.file bytes)) folder
      (putPair name (.file bytes) entries) := hfolder.put hcontent
  have hchecked := ((scanSettings_eq_ok_iff hfolder).mp hscan).1
  have hlater := (scanSettings_eq_ok_iff hafter).mpr ⟨hchecked, rfl⟩
  refine ⟨_, hlater, fun key hkey => ?_⟩
  obtain ⟨file, hfile, hkey⟩ := (mem_names_scanSettings hafter hlater).mp hkey
  by_cases hsame : file = name
  · rw [hsame, lookup_putPair_self] at hkey
    refine (honly.keys key hkey).imp_left fun hold => ?_
    refine (mem_names_scanSettings hfolder hscan).mpr ⟨file, hfile, ?_⟩
    rw [hsame, hcontent]
    cases content <;> exact hold
  · rw [lookup_putPair_of_ne hsame] at hkey
    exact .inl ((mem_names_scanSettings hfolder hscan).mpr ⟨file, hfile, hkey⟩)

theorem isOwnProject_put (hname : name ≠ manifestFile) {own : Bool}
    (hown : isOwnProject disk (.ofRoot folder) = .ok own) :
    isOwnProject (disk.put (folder ++ [name]) (.file bytes)) (.ofRoot folder) = .ok own := by
  have hmanifest : IsName manifestFile := ⟨by decide, by decide, by decide⟩
  have hzero : '\x00' ∉ manifestFile.toList := by decide
  have hafter : IsFolder (disk.put (folder ++ [name]) (.file bytes)) folder
      (putPair name (.file bytes) entries) := hfolder.put hcontent
  simp only [isOwnProject_eq, except_bind_eq_ok_iff, followed_eq_ok_iff,
    hafter.bytes?_eq_ok_iff hmanifest (hasZero_child hfolder hzero),
    hfolder.bytes?_eq_ok_iff hmanifest (hasZero_child hfolder hzero),
    lookup_putPair_of_ne hname.symm] at hown ⊢
  exact hown

theorem mem_names_scanCodeIn_put (honly : NamesOnly name content bytes known)
    (hkey : key ∈ (scanCodeIn (disk.put (folder ++ [name]) (.file bytes)) folder
      (.dir (putPair name (.file bytes) entries)) filter maxDepth).found.names) :
    key ∈ (scanCodeIn disk folder (.dir entries) filter maxDepth).found.names ∨ key ∈ known := by
  have hcount : (Node.dir entries).linkCount = 0 := hfolder.linkCount_eq
  have hcount' : (Node.dir (putPair name (.file bytes) entries)).linkCount = 0 :=
    (hfolder.put hcontent).linkCount_eq
  rw [mem_names_scanCodeIn hcount'] at hkey
  rw [mem_names_scanCodeIn hcount]
  obtain ⟨visit, hvisit, entry, hentry, hread, hopenable, hkey⟩ := hkey
  rcases mem_walkFrom_put hvisit with rfl | hold
  · have hfirst : (⟨[], entries⟩ : Visit) ∈ walkFrom (isEntered filter maxDepth) [] (.dir entries) :=
      mem_walkFrom_dir_iff.mpr (.inl rfl)
    rcases mem_putPair hentry with rfl | hentry
    · -- Only the file that changed can refer to more than before.
      have hparts := hread
      simp only [isRead, List.nil_append, List.getLast?_singleton, Option.any_some, Bool.and_eq_true,
        Bool.not_eq_true'] at hparts
      refine (honly.references hparts.1.1 hparts.1.2 key hkey).imp_left fun hbefore => ?_
      obtain ⟨old, rfl, -, -⟩ := mem_namesReferred_iff.mp hbefore
      exact ⟨_, hfirst, (name, .file old), mem_of_lookup hcontent, hread, hopenable, hbefore⟩
    · exact .inl ⟨_, hfirst, entry, hentry, hread, hopenable, hkey⟩
  · exact .inl ⟨visit, hold, entry, hentry, hread, hopenable, hkey⟩

/-- **A change that names nothing new.** The scan succeeds as before, and finds nothing else than
before but what is known. -/
theorem exists_scan_put (hname : name ≠ manifestFile) (honly : NamesOnly name content bytes known)
    {deep : Bool} (hscan : scan disk (.ofRoot folder) deep extraIgnore maxDepth = .ok found) :
    ∃ later, scan (disk.put (folder ++ [name]) (.file bytes)) (.ofRoot folder) deep extraIgnore
        maxDepth = .ok later ∧
      ∀ key ∈ later.names, key ∈ found.names ∨ key ∈ known := by
  cases deep with
  | false => exact exists_scanSettings_put hfolder hcontent honly hscan
  | true =>
    obtain ⟨code, hresult, rfl⟩ := scan_deep_eq_ok_iff.mp hscan
    obtain ⟨own, filter, hown, hfilter, rfl⟩ := (scanCode_eq_ok_iff hfolder).mp hresult
    have hlater : scanCode (disk.put (folder ++ [name]) (.file bytes)) (.ofRoot folder) extraIgnore
        maxDepth = .ok (scanCodeIn (disk.put (folder ++ [name]) (.file bytes)) folder
          (.dir (putPair name (.file bytes) entries)) filter maxDepth) :=
      (scanCode_eq_ok_iff (hfolder.put hcontent)).mpr
        ⟨own, filter, isOwnProject_put hfolder hcontent hname hown, hfilter, rfl⟩
    refine ⟨_, scan_deep_eq_ok_iff.mpr ⟨_, hlater, rfl⟩, fun key hkey => ?_⟩
    exact mem_names_scanCodeIn_put hfolder hcontent honly hkey

end Change

theorem exists_isFolder_of_scan (hnames : ∀ name ∈ folder, IsName name)
    (hlinks : HasNoLinks disk folder) {deep : Bool}
    (hscan : scan disk (.ofRoot folder) deep extraIgnore maxDepth = .ok found) :
    ∃ entries, IsFolder disk folder entries := by
  have hroot : ∃ root, scanRoot disk (.ofRoot folder) = .ok root := by
    cases deep with
    | false =>
      have hshallow : scanSettings disk (.ofRoot folder) = .ok found := hscan
      obtain ⟨root, hroot, -⟩ := except_bind_eq_ok_iff.mp hshallow
      exact ⟨root, hroot⟩
    | true =>
      obtain ⟨code, hcode, -⟩ := scan_deep_eq_ok_iff.mp hscan
      obtain ⟨root, hroot, -⟩ := except_bind_eq_ok_iff.mp hcode
      exact ⟨root, hroot⟩
  obtain ⟨⟨place, node⟩, hroot⟩ := hroot
  obtain ⟨-, entries, -, hfolder⟩ := isFolder_of_scanRoot hnames hlinks hroot
  exact ⟨entries, hfolder⟩

/-- What a scan of a folder finds are names of variables. -/
theorem isVariableName_of_mem_scan (hfolder : IsFolder disk folder entries) {deep : Bool}
    (hscan : scan disk (.ofRoot folder) deep extraIgnore maxDepth = .ok found)
    (hkey : key ∈ found.names) : Name.IsVariableName key.toList := by
  cases deep with
  | false =>
    obtain ⟨file, -, hkey⟩ := (mem_names_scanSettings hfolder hscan).mp hkey
    unfold keysNamed at hkey
    split at hkey
    · simp at hkey
    · split at hkey
      · exact isVariableName_of_mem_variableKeys hkey
      · simp at hkey
  | true =>
    obtain ⟨code, hresult, rfl⟩ := scan_deep_eq_ok_iff.mp hscan
    obtain ⟨own, filter, -, -, rfl⟩ := (scanCode_eq_ok_iff hfolder).mp hresult
    have hcount : (Node.dir entries).linkCount = 0 := hfolder.linkCount_eq
    obtain ⟨_, -, _, -, -, -, hkey⟩ := (mem_names_scanCodeIn hcount).mp hkey
    obtain ⟨_, -, -, hkey⟩ := mem_namesReferred_iff.mp hkey
    exact Name.isVariableName_of_mem_candidates hkey

end EnvFill.Project
