import EnvFill.Proofs.CapturedNames
import EnvFill.Proofs.DirectoryPatterns
import EnvFill.Proofs.PatternLines
import EnvFill.Proofs.ScannedCode

/-!
# What a scan through code reads

A walk with its rule for entering directories comes to exactly those to which a chain of entered
directories leads. So a scan can be described without the walk: by the files of the tree, what stands
above them, and what the filter says of their paths.
-/

namespace EnvFill.Storage

/-- In the tree, the names of the path lead to the node at its end, through directories alone. -/
inductive Node.Holds : Node → Location → Node → Prop where
  | here (node : Node) : Holds node [] node
  | into {entries : List (String × Node)} {name : String} {child node : Node} {path : Location}
      (hentry : (name, child) ∈ entries) (hpath : Holds child path node) :
      Holds (.dir entries) (name :: path) node

variable {enters : Location → Bool} {path below : Location} {entries : List (String × Node)}
  {name : String} {node child : Node} {visit : Visit}

theorem Node.holds_nil_iff : Node.Holds node [] child ↔ node = child := by
  constructor
  · rintro ⟨⟩
    rfl
  · rintro rfl
    exact .here node

theorem Node.holds_cons_iff : Node.Holds node (name :: below) child ↔
    ∃ entries next, node = .dir entries ∧ (name, next) ∈ entries ∧ Node.Holds next below child := by
  constructor
  · rintro (_ | ⟨hentry, hpath⟩)
    exact ⟨_, _, rfl, hentry, hpath⟩
  · rintro ⟨entries, next, rfl, hentry, hpath⟩
    exact .into hentry hpath

theorem Node.holds_concat_iff : Node.Holds node (below ++ [name]) child ↔
    ∃ entries, Node.Holds node below (.dir entries) ∧ (name, child) ∈ entries := by
  induction below generalizing node with
  | nil =>
    rw [List.nil_append, Node.holds_cons_iff]
    simp only [Node.holds_nil_iff]
    constructor
    · rintro ⟨entries, next, rfl, hentry, rfl⟩
      exact ⟨entries, rfl, hentry⟩
    · rintro ⟨entries, rfl, hentry⟩
      exact ⟨entries, child, rfl, hentry, rfl⟩
  | cons first below ih =>
    rw [List.cons_append]
    simp only [Node.holds_cons_iff, ih]
    constructor
    · rintro ⟨above, next, rfl, hnext, entries, hpath, hentry⟩
      exact ⟨entries, ⟨above, next, rfl, hnext, hpath⟩, hentry⟩
    · rintro ⟨entries, ⟨above, next, rfl, hnext, hpath⟩, hentry⟩
      exact ⟨above, next, rfl, hnext, entries, hpath, hentry⟩

/-- The beginnings of a list that are not empty hold its first member, and then any beginning of the
rest. -/
theorem forall_prefix_cons_iff {α : Type} {a : α} {rest : List α} {P : List α → Prop} :
    (∀ front, front ≠ [] → front <+: a :: rest → P front) ↔
      P [a] ∧ ∀ front, front ≠ [] → front <+: rest → P (a :: front) := by
  constructor
  · intro hall
    refine ⟨hall [a] (List.cons_ne_nil a []) ⟨rest, rfl⟩, fun front _ hfront => ?_⟩
    exact hall (a :: front) (List.cons_ne_nil a front) (List.cons_prefix_cons.mpr ⟨rfl, hfront⟩)
  · rintro ⟨hfirst, hrest⟩ front hne hfront
    obtain ⟨first, front, rfl⟩ := List.exists_cons_of_ne_nil hne
    obtain ⟨rfl, hbelow⟩ := List.cons_prefix_cons.mp hfront
    by_cases hnil : front = []
    · rwa [hnil]
    · exact hrest front hnil hbelow

/-- Induction on a tree: what holds of a directory if it holds of all its entries. -/
@[elab_as_elim]
theorem Node.tree_induction {motive : Node → Prop} (hfile : ∀ bytes, motive (.file bytes))
    (hlink : ∀ target, motive (.link target))
    (hdir : ∀ entries, (∀ entry ∈ entries, motive entry.2) → motive (.dir entries)) (node : Node) :
    motive node := by
  match node with
  | .file bytes => exact hfile bytes
  | .link target => exact hlink target
  | .dir entries => exact hdir entries fun entry hentry => tree_induction hfile hlink hdir entry.2
  termination_by sizeOf node
  decreasing_by
    have hsize := List.sizeOf_lt_of_mem hentry
    obtain ⟨name, child⟩ := entry
    simp only [Prod.mk.sizeOf_spec, Node.dir.sizeOf_spec] at hsize ⊢
    omega

/-- **What a walk visits.** The directories of the tree such that all on the way to them are entered,
and they themselves. -/
theorem mem_walkFrom_iff :
    visit ∈ walkFrom enters path node ↔
      ∃ below, visit.path = path ++ below ∧ node.Holds below (.dir visit.entries) ∧
        ∀ front, front ≠ [] → front <+: below → enters (path ++ front) = true := by
  induction node using Node.tree_induction generalizing path with
  | hfile bytes =>
    rw [walkFrom]
    constructor
    · simp
    · rintro ⟨below, -, hheld, -⟩
      cases hheld
  | hlink target =>
    rw [walkFrom]
    constructor
    · simp
    · rintro ⟨below, -, hheld, -⟩
      cases hheld
  | hdir entries ih =>
    rw [mem_walkFrom_dir_iff]
    constructor
    · rintro (rfl | ⟨⟨name, child⟩, hentry, henters, hvisit⟩)
      · refine ⟨[], (List.append_nil path).symm, .here _, fun front hne hfront => ?_⟩
        exact absurd (List.prefix_nil.mp hfront) hne
      · obtain ⟨below, hpath, hheld, hentered⟩ := (ih _ hentry).mp hvisit
        refine ⟨name :: below, by simpa using hpath, .into hentry hheld, ?_⟩
        rw [forall_prefix_cons_iff]
        exact ⟨henters, by simpa using hentered⟩
    · rintro ⟨below, hpath, hheld, hentered⟩
      cases hheld with
      | here =>
        obtain ⟨place, entries⟩ := visit
        obtain rfl : place = path := by simpa using hpath
        exact .inl rfl
      | into hentry hbelow =>
        rw [forall_prefix_cons_iff] at hentered
        obtain ⟨henters, hentered⟩ := hentered
        refine .inr ⟨_, hentry, henters, (ih _ hentry).mpr ⟨_, ?_, hbelow, ?_⟩⟩
        · simpa using hpath
        · simpa using hentered

end EnvFill.Storage

namespace EnvFill.Fill

theorem lookup_map_self {α : Type} (names : List String) (f : String → α) (name : String) :
    (names.map fun name => (name, f name)).lookup name = if name ∈ names then some (f name) else none := by
  induction names with
  | nil => rfl
  | cons first rest ih =>
    rw [List.map_cons, List.lookup_cons]
    by_cases hname : name = first
    · subst hname
      simp
    · rw [beq_eq_false_iff_ne.mpr hname]
      simp [ih, hname]

theorem Found.mem_files_ofMentions {mentions : List (String × String)} {name file : String} :
    file ∈ (Found.ofMentions mentions).files name ↔ (name, file) ∈ mentions := by
  have hfiles : (Found.ofMentions mentions).files name =
      if name ∈ Sorted.ofList (mentions.map Prod.fst) then
        Sorted.ofList ((mentions.filter fun mention => mention.1 == name).map Prod.snd)
      else [] := by
    unfold Found.files Found.ofMentions
    rw [lookup_map_self]
    split <;> rfl
  have hmem : file ∈ Sorted.ofList ((mentions.filter fun mention => mention.1 == name).map Prod.snd) ↔
      (name, file) ∈ mentions := by
    simp only [Sorted.mem_ofList, List.mem_map, List.mem_filter, beq_iff_eq]
    constructor
    · rintro ⟨mention, ⟨hmention, rfl⟩, rfl⟩
      exact hmention
    · intro hmention
      exact ⟨(name, file), ⟨hmention, rfl⟩, rfl⟩
  rw [hfiles]
  split
  · exact hmem
  · rename_i habsent
    rw [Sorted.mem_ofList] at habsent
    constructor
    · simp
    · intro hmention
      exact absurd (List.mem_map_of_mem hmention) habsent

end EnvFill.Fill

namespace EnvFill.Ignore

/-- The patterns that are part of the program are all valid. -/
theorem exists_parse?_of_mem_fixed {line : String}
    (hline : line ∈ standardPatterns ∨ line ∈ Project.ownPatterns) :
    ∃ pattern, Pattern.parse? line = .ok pattern := by
  have hall : ∀ line ∈ skippedDirectories.map (· ++ "/") ++ Project.ownPatterns,
      (Pattern.parse? line).isOk = true := by decide +kernel
  have hfixed : line ∈ skippedDirectories.map (· ++ "/") ++ Project.ownPatterns := by
    rwa [List.mem_append, ← Sorted.mem_ofList]
  exact exists_parse?_of_isOk (hall line hfixed)

/-- Where the further patterns are valid, a filter is built from those that are not blank. -/
theorem ScanFilter.exists_build {extraIgnore : List String} (own : Bool)
    (hextra : ∀ line ∈ extraIgnore, ∃ pattern, Pattern.parse? line = .ok pattern) :
    ∃ filter, ScanFilter.build (extraIgnore ++ if own then Project.ownPatterns else []) = .ok filter ∧
      parsePatterns (standardPatterns ++ withoutBlank extraIgnore ++
        if own then Project.ownPatterns else []) = .ok filter.patterns := by
  have hown : withoutBlank (if own then Project.ownPatterns else []) =
      if own then Project.ownPatterns else [] := by
    cases own <;> decide
  have hlines : ∀ line ∈ standardPatterns ++ withoutBlank extraIgnore ++
      (if own then Project.ownPatterns else []), ∃ pattern, Pattern.parse? line = .ok pattern := by
    intro line hline
    rw [List.mem_append, List.mem_append] at hline
    rcases hline with (hstandard | hextraLine) | hownLine
    · exact exists_parse?_of_mem_fixed (.inl hstandard)
    · exact hextra line (List.mem_of_mem_filter hextraLine)
    · refine exists_parse?_of_mem_fixed (.inr ?_)
      cases own with
      | true => exact hownLine
      | false => exact absurd hownLine List.not_mem_nil
  obtain ⟨patterns, hpatterns⟩ := exists_parsePatterns hlines
  refine ⟨⟨patterns⟩, ?_, hpatterns⟩
  have happend : withoutBlank (extraIgnore ++ if own then Project.ownPatterns else []) =
      withoutBlank extraIgnore ++ if own then Project.ownPatterns else [] := by
    conv_rhs => rw [← hown]
    exact List.filter_append _ _
  rw [ScanFilter.build, happend, ← List.append_assoc, hpatterns]
  rfl

end EnvFill.Ignore

namespace EnvFill.Project

open Storage Fill Ignore Text

variable {disk : Disk} {root dirs : Location} {node child : Node} {filter : ScanFilter} {maxDepth : Int}
  {file name text : String} {bytes : List UInt8} {visit : Visit} {extraIgnore : List String}

/-- A directory entry that is a file with these bytes, or a link that leads to one. -/
inductive LeadsToFile (disk : Disk) (folder : Location) (name : String) (bytes : List UInt8) :
    Node → Prop where
  | file : LeadsToFile disk folder name bytes (.file bytes)
  | link {target : String} {place : Location}
      (hplace : locateFrom? disk.top maxLinks folder [name] = .ok place)
      (hfile : disk.top.get? place = some (.file bytes)) : LeadsToFile disk folder name bytes (.link target)

/-- What a scan of `node`, which lies at `root`, looks for: the text file with the given bytes in the
directory at `dirs`. -/
structure IsSought (disk : Disk) (root : Location) (node : Node) (filter : ScanFilter)
    (maxDepth : Int) (dirs : Location) (file : String) (bytes : List UInt8) : Prop where
  held : ∃ child, node.Holds (dirs ++ [file]) child ∧ LeadsToFile disk (root ++ dirs) file bytes child
  shallow : (dirs.length : Int) ≤ max maxDepth 0
  entered : ∀ front, front ≠ [] → front <+: dirs →
    filter.ignoresDirectory (.ofRoot []) ⟨.current, front⟩ = false
  kept : filter.ignoresFile (.ofRoot []) ⟨.current, dirs ++ [file]⟩ = false
  code : file ∉ [".env", ".env.local"] ∧ Name.isCodeFile file = true
  text : 0 ∉ bytes.take 8192

/-- What the scan reads: what it looks for, if the path is short enough for the file to be opened. -/
structure IsScanned (disk : Disk) (root : Location) (node : Node) (filter : ScanFilter) (maxDepth : Int)
    (dirs : Location) (file : String) (bytes : List UInt8) : Prop
    extends IsSought disk root node filter maxDepth dirs file bytes where
  short : (Pathname.ofRoot (root ++ dirs ++ [file])).toString.utf8ByteSize ≤ maxPathBytes

theorem entryBytes?_eq_some_iff :
    entryBytes? disk root (file, child) = some bytes ↔ LeadsToFile disk root file bytes child := by
  constructor
  · intro hbytes
    cases child with
    | file content =>
      obtain rfl : content = bytes := Option.some.inj hbytes
      exact .file
    | dir entries => exact absurd hbytes.symm (Option.some_ne_none bytes)
    | link target =>
      unfold entryBytes? at hbytes
      dsimp only at hbytes
      split at hbytes
      · simp at hbytes
      · rename_i place hplace
        split at hbytes
        · rename_i content hfile
          obtain rfl := Option.some.inj hbytes
          exact .link hplace hfile
        · simp at hbytes
  · rintro (_ | ⟨hplace, hfile⟩)
    · rfl
    · unfold entryBytes?
      simp [hplace, hfile]

theorem isRead_concat_iff : isRead filter (dirs ++ [file]) = true ↔
    (file ∉ [".env", ".env.local"] ∧ Name.isCodeFile file = true) ∧
      filter.ignoresFile (.ofRoot []) ⟨.current, dirs ++ [file]⟩ = false := by
  simp [isRead, Name.runtimeFiles]

theorem looksLikeText_iff : looksLikeText bytes = true ↔ 0 ∉ bytes.take 8192 := by
  simp [looksLikeText, sniffedBytes]

/-- All directories above a file are entered if there are not too many and the filter leaves out
none of them. -/
theorem forall_isEntered_iff :
    (∀ front, front ≠ [] → front <+: dirs → isEntered filter maxDepth front = true) ↔
      (dirs.length : Int) ≤ max maxDepth 0 ∧ ∀ front, front ≠ [] → front <+: dirs →
        filter.ignoresDirectory (.ofRoot []) ⟨.current, front⟩ = false := by
  simp only [isEntered, Bool.and_eq_true, decide_eq_true_eq, Bool.not_eq_true']
  constructor
  · intro hall
    refine ⟨?_, fun front hne hfront => (hall front hne hfront).2⟩
    by_cases hnil : dirs = []
    · rw [hnil]
      exact le_max_right maxDepth 0
    · have hdeep := (hall dirs hnil (List.prefix_refl dirs)).1
      omega
  · rintro ⟨hdeep, hall⟩ front hne hfront
    refine ⟨?_, hall front hne hfront⟩
    have hpositive := List.length_pos_iff.mpr hne
    have hlength := hfront.length_le
    omega

theorem mem_files_scanCodeIn : text ∈ (scanCodeIn disk root node filter maxDepth).found.files name ↔
    ∃ dirs file bytes, IsScanned disk root node filter maxDepth dirs file bytes ∧
      text = relativeText (dirs ++ [file]) ∧ name ∈ Name.candidates (Utf8.decodeLossy bytes) := by
  unfold scanCodeIn
  dsimp only
  rw [Found.mem_files_ofMentions]
  simp only [List.mem_flatMap, List.mem_map, Prod.mk.injEq, Prod.exists, mem_filesRead_iff,
    textBytes?_eq_some_iff, isOpenable_iff, entryBytes?_eq_some_iff, mem_walkFrom_iff, List.nil_append,
    isRead_concat_iff, looksLikeText_iff]
  constructor
  · rintro ⟨_, bytes, ⟨visit, ⟨dirs, rfl, hheld, hentered⟩, file, child, hentry, ⟨hcode, hkept⟩,
      ⟨hshort, hleads, htext⟩, rfl⟩, _, hname, rfl, rfl⟩
    obtain ⟨hshallow, hentered⟩ := forall_isEntered_iff.mp hentered
    have hheld : node.Holds (visit.path ++ [file]) child :=
      Node.holds_concat_iff.mpr ⟨visit.entries, hheld, hentry⟩
    exact ⟨visit.path, file, bytes,
      ⟨⟨⟨child, hheld, hleads⟩, hshallow, hentered, hkept, hcode, htext⟩, hshort⟩, rfl, hname⟩
  · rintro ⟨dirs, file, bytes,
      ⟨⟨⟨child, hheld, hleads⟩, hshallow, hentered, hkept, hcode, htext⟩, hshort⟩, rfl, hname⟩
    obtain ⟨entries, hheld, hentry⟩ := Node.holds_concat_iff.mp hheld
    exact ⟨_, bytes, ⟨⟨dirs, entries⟩, ⟨dirs, rfl, hheld, forall_isEntered_iff.mpr ⟨hshallow, hentered⟩⟩,
      file, child, hentry, ⟨hcode, hkept⟩, ⟨hshort, hleads, htext⟩, rfl⟩, name, hname, rfl, rfl⟩

/-- **A scan without the walk.** A variable is found in a file exactly if the scan reads the file and
the rules find the variable in its text. -/
theorem scanCode_files_iff {path : Pathname} {own : Bool} (hroot : scanRoot disk path = .ok (root, node))
    (hown : isOwnProject disk (.ofRoot root) = .ok own)
    (hextra : ∀ line ∈ extraIgnore, ∃ pattern, Pattern.parse? line = .ok pattern) :
    ∃ filter code,
      parsePatterns (standardPatterns ++ withoutBlank extraIgnore ++ if own then ownPatterns else []) =
          .ok filter.patterns ∧
        scanCode disk path extraIgnore maxDepth = .ok code ∧
          ∀ name text, text ∈ code.found.files name ↔
            ∃ dirs file bytes, IsScanned disk root node filter maxDepth dirs file bytes ∧
              text = relativeText (dirs ++ [file]) ∧
                name ∈ Name.candidates (Utf8.decodeLossy bytes) := by
  obtain ⟨filter, hbuild, hpatterns⟩ := ScanFilter.exists_build own hextra
  refine ⟨filter, scanCodeIn disk root node filter maxDepth, hpatterns, ?_, fun name text =>
    mem_files_scanCodeIn⟩
  unfold scanCode
  simp only [hroot, except_bind_eq_ok_iff, Except.ok.injEq, Prod.exists, Prod.mk.injEq]
  exact ⟨root, node, ⟨rfl, rfl⟩, own, hown, by rw [hbuild]; rfl⟩

/-- A project with a code file and a link to it. -/
def linkedProject : Node :=
  .dir [("main.js", .file (Utf8.encodeText "process.env.API_KEY".toList)),
    ("src", .dir [("again.js", .link "../main.js")])]

def linkedDisk : Disk := ⟨.dir [("app", linkedProject)], []⟩

theorem isOwnProject_linkedDisk : isOwnProject linkedDisk (.ofRoot ["app"]) = .ok false := by
  have htext : Disk.checkText (.ofRoot (["app"] ++ [manifestFile])) = .ok () := by decide
  have hlocate : linkedDisk.locate? (.ofRoot (["app"] ++ [manifestFile])) = .error .missing := by
    have hshort : isTooLong "app" = false ∧ isTooLong "pyproject.toml" = false := by decide
    unfold Disk.locate?
    rw [htext]
    change locateFrom? linkedDisk.top maxLinks [] ["app", "pyproject.toml"] = _
    simp [locateFrom?, hshort.1, hshort.2, linkedDisk, linkedProject, Node.get?, Node.entries, List.lookup]
  rw [isOwnProject_eq]
  unfold Disk.bytes? Disk.find Disk.findPlace
  rw [hlocate]
  rfl

theorem mem_candidates_of_member :
    "API_KEY" ∈ Name.candidates (Utf8.decodeLossy (Utf8.encodeText "process.env.API_KEY".toList)) := by
  rw [Utf8.decodeLossy_encodeText, Name.mem_candidates_iff]
  refine ⟨⟨.member "node" "process.env.", List.mem_cons_self, ?_⟩, by decide⟩
  rw [Name.mem_extract_iff_captures List.mem_cons_self]
  have hmatch : (((Name.Rule.member "node" "process.env.").regex.matchAt? none
      "process.env.API_KEY".toList).bind fun found => found.captured.map Regex.Capture.toList) =
        some "API_KEY".toList := by decide +kernel
  obtain ⟨found, hfound, hname⟩ := Option.bind_eq_some_iff.mp hmatch
  exact ⟨[], _, found, rfl, hfound, hname⟩

/-- The variable is found through the link. -/
theorem scanCode_files_of_linkedDisk :
    ∃ code, scanCode linkedDisk (.ofRoot ["app"]) ["*.min.js"] 1 = .ok code ∧
      "src/again.js" ∈ code.found.files "API_KEY" := by
  have hroot : scanRoot linkedDisk (.ofRoot ["app"]) = .ok (["app"], linkedProject) := by cbv
  have hextra : ∀ line ∈ ["*.min.js"], ∃ pattern, Pattern.parse? line = .ok pattern := by
    intro line hline
    rw [List.mem_singleton.mp hline]
    exact exists_parse?_of_isOk (by decide +kernel)
  obtain ⟨filter, code, hpatterns, hcode, hfiles⟩ :=
    scanCode_files_iff hroot isOwnProject_linkedDisk hextra
  have hfilter : filter =
      ⟨((parsePatterns (standardPatterns ++ withoutBlank ["*.min.js"] ++ [])).toOption).getD []⟩ := by
    have hsome : parsePatterns (standardPatterns ++ withoutBlank ["*.min.js"] ++ []) =
        .ok filter.patterns := hpatterns
    rw [hsome]
    rfl
  have hplace : locateFrom? linkedDisk.top maxLinks ["app", "src"] ["again.js"] =
      .ok ["app", "main.js"] := by
    have hshort : isTooLong "again.js" = false ∧ isTooLong "main.js" = false := by decide
    have hsteps : linkSteps "../main.js" = ["..", "main.js"] := by decide
    have hstart : linkStart ["app", "src"] "../main.js" = ["app", "src"] := by decide
    simp [locateFrom?, maxLinks, hshort.1, hshort.2, hsteps, hstart, linkedDisk, linkedProject, Node.get?,
      Node.entries, List.lookup]
  refine ⟨code, hcode, (hfiles "API_KEY" "src/again.js").mpr ⟨["src"], "again.js", _, ?_, by decide,
    mem_candidates_of_member⟩⟩
  refine ⟨⟨⟨.link "../main.js", ?_, .link hplace rfl⟩, by decide, ?_, ?_, by decide, by decide⟩, by decide⟩
  · exact .into (List.mem_cons_of_mem _ List.mem_cons_self) (.into List.mem_cons_self (.here _))
  · rw [forall_prefix_cons_iff, hfilter]
    refine ⟨by decide +kernel, fun front hne hfront => ?_⟩
    exact absurd (List.prefix_nil.mp hfront) hne
  · rw [hfilter]
    decide +kernel

/-- Directories in each other, of which each holds nothing but the next, around a node. -/
def nested (dirs : Location) (node : Node) : Node :=
  dirs.foldr (fun name below => .dir [(name, below)]) node

theorem holds_nested (dirs : Location) (node : Node) : (nested dirs node).Holds dirs node := by
  induction dirs with
  | nil => exact .here node
  | cons name dirs ih => exact .into List.mem_cons_self ih

/-- Only one file is to be found in directories in each other around it. -/
theorem eq_of_holds_nested {path folder : Location} {content : List UInt8}
    (hheld : (nested dirs (.dir [(file, .file content)])).Holds path child)
    (hleads : LeadsToFile disk folder name bytes child) : path = dirs ++ [file] := by
  induction dirs generalizing path with
  | nil =>
    cases hheld with
    | here => cases hleads
    | into hentry hpath =>
      obtain ⟨rfl, rfl⟩ := Prod.mk.inj (List.mem_singleton.mp hentry)
      cases hpath
      rfl
  | cons first dirs ih =>
    cases hheld with
    | here => cases hleads
    | into hentry hpath =>
      obtain ⟨rfl, rfl⟩ := Prod.mk.inj (List.mem_singleton.mp hentry)
      rw [ih hpath, List.cons_append]

/-- Names of directories that together are longer than a path may be. -/
def deepDirs : Location := List.replicate 17 longName

def deepProject : Node :=
  nested deepDirs (.dir [("main.js", .file (Utf8.encodeText "process.env.API_KEY".toList))])

def deepDisk : Disk := ⟨.dir [("app", deepProject)], []⟩

theorem isClean_deepDirs : ∀ name ∈ deepDirs, IsClean name ∧ name ∉ skippedDirectories := by
  intro name hname
  obtain rfl := List.eq_of_mem_replicate hname
  refine ⟨⟨?_, ?_, ?_, ?_, ?_⟩, ?_⟩
  iterate 5
    rw [toList_longName]
    decide
  · have hshort : ∀ name ∈ skippedDirectories, name.utf8ByteSize ≠ 250 := by decide
    exact fun hskipped => hshort longName hskipped utf8ByteSize_longName

theorem maxPathBytes_lt_deepDirs :
    maxPathBytes < (Pathname.ofRoot (["app"] ++ deepDirs ++ ["main.js"])).toString.utf8ByteSize := by
  have hsum := sum_utf8ByteSize_le_joinParts (["app"] ++ deepDirs)
  have hfront := utf8ByteSize_ofRoot_le (["app"] ++ deepDirs) ["main.js"]
  have hnames : ((["app"] ++ deepDirs).map String.utf8ByteSize).sum = 3 + 17 * 250 := by
    rw [deepDirs, List.map_append, List.map_replicate, utf8ByteSize_longName, List.sum_append,
      List.sum_replicate]
    rfl
  rw [utf8ByteSize_ofRoot] at hfront
  unfold maxPathBytes
  omega

theorem exists_isFolder_deepDisk :
    ∃ entries, deepProject = .dir entries ∧ entries.lookup manifestFile = none ∧
      IsFolder deepDisk ["app"] entries := by
  obtain ⟨entries, hentries, hmanifest⟩ : ∃ entries, deepProject = .dir entries ∧
      entries.lookup manifestFile = none := by
    refine ⟨[(longName, _)], rfl, ?_⟩
    have hne : manifestFile ≠ longName := by
      intro heq
      have hsize : manifestFile.utf8ByteSize ≠ 250 := by decide
      exact hsize (heq ▸ utf8ByteSize_longName)
    rw [List.lookup_cons, beq_eq_false_iff_ne.mpr hne]
    rfl
  have hcount : Node.entriesLinkCount entries = 0 := by
    have hnone : deepProject.linkCount = 0 := rfl
    rwa [hentries, Node.linkCount] at hnone
  have hdisk : deepDisk = projectDisk entries := by rw [deepDisk, hentries, projectDisk]
  exact ⟨entries, hentries, hmanifest, hdisk ▸ isFolder_projectDisk hcount⟩

/-- No pattern and no limit but that on paths keeps the file from a scan. -/
theorem isSought_deepDisk {filter : ScanFilter} (hbuild : ScanFilter.build [] = .ok filter) :
    IsSought deepDisk ["app"] deepProject filter 32 deepDirs "main.js"
      (Utf8.encodeText "process.env.API_KEY".toList) := by
  have hclean : ∀ name ∈ deepDirs ++ ["main.js"], IsClean name :=
    List.forall_mem_append.mpr
      ⟨fun name hname => (isClean_deepDirs name hname).1, List.forall_mem_singleton.mpr (by decide)⟩
  refine ⟨⟨_, ?_, .file⟩, by decide, ?_, ?_, by decide, by decide⟩
  · exact Node.holds_concat_iff.mpr ⟨_, holds_nested _ _, List.mem_cons_self⟩
  · intro front hne hfront
    rw [Bool.eq_false_iff, ne_eq, ignoresDirectory_standard_iff hbuild hne
      (fun name hname => (isClean_deepDirs name (hfront.subset hname)).1) .relative]
    rintro ⟨name, hname, hskipped⟩
    exact (isClean_deepDirs name (hfront.subset hname)).2 hskipped
  · rw [Bool.eq_false_iff, ne_eq, ignoresFile_standard_iff hbuild (by simp) hclean .relative,
      List.dropLast_concat]
    rintro ⟨name, hname, hskipped⟩
    exact (isClean_deepDirs name hname).2 hskipped

/-- The one file of the project cannot be opened, so nothing is found. -/
theorem files_scanCodeIn_deepDisk (filter : ScanFilter) (name : String) :
    (scanCodeIn deepDisk ["app"] deepProject filter 32).found.files name = [] := by
  rw [List.eq_nil_iff_forall_not_mem]
  intro text htext
  obtain ⟨dirs, file, bytes, hscanned, -, -⟩ := mem_files_scanCodeIn.mp htext
  obtain ⟨child, hheld, hleads⟩ := hscanned.held
  have hpath : dirs ++ [file] = deepDirs ++ ["main.js"] := eq_of_holds_nested hheld hleads
  have hshort := hscanned.short
  rw [List.append_assoc, hpath, ← List.append_assoc] at hshort
  exact absurd hshort (Nat.not_le.mpr maxPathBytes_lt_deepDirs)

/-- A file that a scan looks for is not read if its path is too long. -/
theorem file_of_long_path_is_not_found :
    ∃ filter code, scanRoot deepDisk (.ofRoot ["app"]) = .ok (["app"], deepProject) ∧
      isOwnProject deepDisk (.ofRoot ["app"]) = .ok false ∧ ScanFilter.build [] = .ok filter ∧
        scanCode deepDisk (.ofRoot ["app"]) [] 32 = .ok code ∧
          IsSought deepDisk ["app"] deepProject filter 32 deepDirs "main.js"
              (Utf8.encodeText "process.env.API_KEY".toList) ∧
            "API_KEY" ∈ Name.candidates (Utf8.decodeLossy (Utf8.encodeText "process.env.API_KEY".toList)) ∧
              code.found.files "API_KEY" = [] := by
  obtain ⟨entries, hentries, hmanifest, hfolder⟩ := exists_isFolder_deepDisk
  have hroot : scanRoot deepDisk (.ofRoot ["app"]) = .ok (["app"], deepProject) :=
    hentries ▸ scanRoot_of_isFolder hfolder
  have hown := isOwnProject_of_no_manifest hfolder hmanifest (by decide)
  have hextra : ∀ line ∈ ([] : List String), ∃ pattern, Pattern.parse? line = .ok pattern := by simp
  obtain ⟨filter, hbuild, -⟩ := ScanFilter.exists_build false hextra
  have hscan : scanCode deepDisk (.ofRoot ["app"]) [] 32 =
      .ok (scanCodeIn deepDisk ["app"] deepProject filter 32) :=
    scanCode_returns_iff.mpr ⟨_, _, false, filter, hroot, hown, hbuild, rfl⟩
  exact ⟨filter, _, hroot, hown, hbuild, hscan, isSought_deepDisk hbuild, mem_candidates_of_member,
    files_scanCodeIn_deepDisk filter "API_KEY"⟩

end EnvFill.Project
