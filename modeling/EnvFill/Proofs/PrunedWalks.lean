import EnvFill.Proofs.CodeScans
import EnvFill.Proofs.OpenPatterns

/-!
# Walks that leave out directories

A walk that does not enter some directories gives what a wider walk gives, if nothing is asked of what
lies in them. A scan asks nothing of the files in directories that its filter leaves out, unless a
pattern takes paths out again or has a bracket, which may match a slash.
-/

namespace EnvFill.Storage

variable {β : Type} {enters narrow wide : Location → Bool} {path : Location} {node : Node}
  {entries : List (String × Node)} {gives : Visit → List β}

theorem byName_map {α γ : Type} {f : String × α → String × γ} (hf : ∀ pair, (f pair).1 = pair.1)
    (pairs : List (String × α)) : Sorted.byName (pairs.map f) = (Sorted.byName pairs).map f := by
  unfold Sorted.byName
  refine (List.map_mergeSort fun a _ b _ => ?_).symm
  rw [hf, hf]

theorem walkEntries_eq_map (entries : List (String × Node)) :
    walkEntries enters path entries = entries.map (walkEntry enters path) := by
  induction entries with
  | nil => rw [walkEntries, List.map_nil]
  | cons entry rest ih => rw [walkEntries, ih, List.map_cons]

theorem flatMap_walkFrom_dir :
    (walkFrom enters path (.dir entries)).flatMap gives =
      gives ⟨path, entries⟩ ++ (Sorted.byName entries).flatMap fun entry =>
        if enters (path ++ [entry.1]) then
          (walkFrom enters (path ++ [entry.1]) entry.2).flatMap gives
        else [] := by
  rw [walkFrom, walkEntries_eq_map, byName_map (fun _ => by rw [walkEntry]), List.flatMap_cons,
    List.flatMap_map, List.flatMap_assoc]
  congr 2
  funext entry
  rw [walkEntry]
  split <;> simp

/-- **A narrow walk and a wide one.** Both enter the same directories, but for some in which nothing is
asked for. Here `P` holds of all names of the tree, and `Q` of the places that the narrow walk reaches. -/
theorem flatMap_walkFrom_eq {P : String → Prop} {Q : Location → Prop}
    (hnames : ∀ below child, node.Holds below child → ∀ name ∈ below, P name)
    (hinto : ∀ place name, P name → Q place → narrow (place ++ [name]) = true →
      wide (place ++ [name]) = true ∧ Q (place ++ [name]))
    (hskip : ∀ place name, P name → Q place → narrow (place ++ [name]) = false →
      wide (place ++ [name]) = true → ∀ visit, place ++ [name] <+: visit.path → gives visit = [])
    (hpath : Q path) :
    (walkFrom narrow path node).flatMap gives = (walkFrom wide path node).flatMap gives := by
  induction node using Node.tree_induction generalizing path with
  | hfile bytes => rw [walkFrom, walkFrom]
  | hlink target => rw [walkFrom, walkFrom]
  | hdir entries ih =>
    rw [flatMap_walkFrom_dir, flatMap_walkFrom_dir]
    congr 1
    apply List.flatMap_congr
    rintro ⟨name, child⟩ hentry
    rw [mem_byName] at hentry
    have hname : P name := hnames [name] child (.into hentry (.here child)) name List.mem_cons_self
    by_cases hnarrow : narrow (path ++ [name]) = true
    · obtain ⟨hwide, hreached⟩ := hinto path name hname hpath hnarrow
      rw [if_pos hnarrow, if_pos hwide]
      apply ih _ hentry _ hreached
      intro below node hheld other hother
      exact hnames _ _ (.into hentry hheld) other (List.mem_cons_of_mem name hother)
    · rw [if_neg hnarrow]
      split
      · -- the wide walk goes on alone, where nothing is asked for
        rename_i hwide
        symm
        rw [List.flatMap_eq_nil_iff]
        intro visit hvisit
        obtain ⟨below, hbelow, -, -⟩ := mem_walkFrom_iff.mp hvisit
        exact hskip path name hname hpath (by simpa using hnarrow) hwide visit ⟨below, hbelow.symm⟩
      · rfl

end EnvFill.Storage

namespace EnvFill.Project

open Storage Ignore Text

variable {disk : Disk} {root : Location} {node : Node} {filter : ScanFilter} {maxDepth : Int}
  {visit : Visit} {extra : List String}

/-- Whether an entry of a directory is seen to be a directory or to lead to one. A link is followed from
its own path, which may be too long. -/
def leadsToFolder (disk : Disk) (folder : Location) : String × Node → Bool
  | (_, .dir _) => true
  | (_, .file _) => false
  | (name, .link _) =>
    isOpenable (folder ++ [name]) &&
      match locateFrom? disk.top maxLinks folder [name] with
      | .ok place => (disk.top.get? place).any Node.isDir
      | .error _ => false

def codeEntries (disk : Disk) (root : Location) (filter : ScanFilter) (visit : Visit) :
    List (String × Node) :=
  (entriesListed root visit).filter fun entry =>
    !leadsToFolder disk (root ++ visit.path) entry && isRead filter (visit.path ++ [entry.1])

def codeFiles (disk : Disk) (root : Location) (filter : ScanFilter) (visits : List Visit) :
    List Location :=
  visits.flatMap fun visit =>
    (codeEntries disk root filter visit).map fun entry => visit.path ++ [entry.1]

theorem entryBytes?_of_leadsToFolder {folder : Location} {entry : String × Node}
    (hfolder : leadsToFolder disk folder entry = true) : entryBytes? disk folder entry = none := by
  obtain ⟨name, child⟩ := entry
  cases child with
  | file bytes => exact absurd hfolder Bool.false_ne_true
  | dir entries => rfl
  | link target =>
    unfold leadsToFolder at hfolder
    unfold entryBytes?
    dsimp only at hfolder ⊢
    rw [Bool.and_eq_true] at hfolder
    replace hfolder := hfolder.2
    split at hfolder
    · rename_i place hplace
      rw [hplace]
      dsimp only
      cases hget : disk.top.get? place with
      | none => rfl
      | some goal =>
        rw [hget, Option.any_some] at hfolder
        cases goal with
        | dir entries => rfl
        | file bytes => exact absurd hfolder Bool.false_ne_true
        | link target => exact absurd hfolder Bool.false_ne_true
    · exact absurd hfolder Bool.false_ne_true

/-- What a scan reads are the code files that can be read as text. -/
theorem filesRead_eq_filterMap_codeEntries :
    filesRead disk root filter visit =
      (codeEntries disk root filter visit).filterMap fun entry =>
        (textBytes? disk (root ++ visit.path) entry).map fun bytes =>
          (relativeText (visit.path ++ [entry.1]), bytes) := by
  unfold filesRead codeEntries
  rw [List.filterMap_filter]
  apply List.filterMap_congr
  rintro ⟨name, child⟩ -
  by_cases hfolder : leadsToFolder disk (root ++ visit.path) (name, child) = true
  · simp [hfolder, textBytes?, entryBytes?_of_leadsToFolder hfolder]
  · rw [Bool.not_eq_true] at hfolder
    rw [hfolder, Bool.not_false, Bool.true_and]

def isWithin (maxDepth : Int) (path : Location) : Bool := (path.length : Int) ≤ maxDepth

/-- Patterns of which none takes paths out again and none stops at the end of a directory. -/
def IsOpen (filter : ScanFilter) : Prop :=
  ∀ pattern ∈ filter.patterns, pattern.negated = false ∧ Regex.GoesOn pattern.regex

theorem isOpen_of_build
    (hplain : ∀ line ∈ extra, line.toList.head? ≠ some '!' ∧ '[' ∉ line.toList)
    (hbuild : ScanFilter.build extra = .ok filter) : IsOpen filter := by
  obtain ⟨patterns, hpatterns, rfl⟩ := except_map_eq_ok_iff.mp hbuild
  have hstandard : ∀ line ∈ skippedDirectories.map (· ++ "/"),
      line.toList.head? ≠ some '!' ∧ '[' ∉ line.toList := by decide
  intro pattern hpattern
  obtain ⟨line, hline, hparse⟩ := (mem_parsePatterns_iff hpatterns).mp hpattern
  have hclear : line.toList.head? ≠ some '!' ∧ '[' ∉ line.toList := by
    rcases List.mem_append.mp hline with hline | hline
    · exact hstandard line (Sorted.mem_ofList.mp hline)
    · exact hplain line (List.mem_of_mem_filter hline)
  exact ⟨negated_of_parse? hclear.1 hparse, goesOn_of_parse? hclear.2 hparse⟩

theorem isRead_of_ignoresDirectory {dirs below : Location} (hopen : IsOpen filter) (hdirs : dirs ≠ [])
    (hbelow : below ≠ []) (hignored : filter.ignoresDirectory (.ofRoot []) ⟨.current, dirs⟩ = true) :
    isRead filter (dirs ++ below) = false := by
  have hfile := ignoresFile_of_ignoresDirectory hopen hdirs hbelow .relative .relative hignored
  rw [isRead, hfile]
  simp

/-- Nothing is read in a directory that is left out. -/
theorem codeEntries_eq_nil {dirs : Location} (hopen : IsOpen filter) (hdirs : dirs ≠ [])
    (hignored : filter.ignoresDirectory (.ofRoot []) ⟨.current, dirs⟩ = true)
    (hvisit : dirs <+: visit.path) : codeEntries disk root filter visit = [] := by
  obtain ⟨below, hbelow⟩ := hvisit
  unfold codeEntries
  rw [List.filter_eq_nil_iff]
  intro entry _
  have hread : isRead filter (visit.path ++ [entry.1]) = false := by
    rw [← hbelow, List.append_assoc]
    exact isRead_of_ignoresDirectory hopen hdirs (by simp) hignored
  simp [hread]

theorem flatMap_walkFrom_isEntered {β : Type} {gives : Visit → List β} (hopen : IsOpen filter)
    (hgives : ∀ visit, codeEntries disk root filter visit = [] → gives visit = []) :
    (walkFrom (isEntered filter maxDepth) [] node).flatMap gives =
      (walkFrom (isWithin maxDepth) [] node).flatMap gives := by
  have hinto : ∀ place name, True → True → isEntered filter maxDepth (place ++ [name]) = true →
      isWithin maxDepth (place ++ [name]) = true ∧ True := by
    intro place name _ _ hentered
    rw [isEntered, Bool.and_eq_true] at hentered
    exact ⟨hentered.1, trivial⟩
  refine flatMap_walkFrom_eq (fun _ _ _ _ _ => trivial) hinto ?_ trivial
  intro place name _ _ hnotEntered hwithin visit hvisit
  apply hgives
  refine codeEntries_eq_nil hopen (by simp) ?_ hvisit
  have hwithin : ((place ++ [name]).length : Int) ≤ maxDepth := by simpa [isWithin] using hwithin
  rw [isEntered, decide_eq_true hwithin, Bool.true_and, Bool.not_eq_false'] at hnotEntered
  exact hnotEntered

/-- **Leaving out directories is leaving out their files.** -/
theorem ignored_directories_hold_ignored_files
    (hvalid : ∀ line ∈ extra, ∃ pattern, Pattern.parse? line = .ok pattern)
    (hplain : ∀ line ∈ extra, line.toList.head? ≠ some '!' ∧ '[' ∉ line.toList) :
    ∃ filter, ScanFilter.build extra = .ok filter ∧
      (∀ root dir path dirs below, dirs ≠ [] → below ≠ [] → LeadsBelow root dirs dir →
        LeadsBelow root (dirs ++ below) path → filter.ignoresDirectory root dir = true →
          filter.ignoresFile root path = true) ∧
      ∀ disk root node maxDepth,
        codeFiles disk root filter (walkFrom (isEntered filter maxDepth) [] node) =
            codeFiles disk root filter (walkFrom (isWithin maxDepth) [] node) ∧
          (scanCodeIn disk root node filter maxDepth).files =
            ((walkFrom (isWithin maxDepth) [] node).flatMap (filesRead disk root filter)).map
              Prod.fst := by
  obtain ⟨filter, hbuild, -⟩ := ScanFilter.exists_build false hvalid
  have hextra : extra ++ (if false then ownPatterns else []) = extra := List.append_nil extra
  rw [hextra] at hbuild
  have hopen := isOpen_of_build hplain hbuild
  refine ⟨filter, hbuild, ?_, ?_⟩
  · intro root dir path dirs below hdirs hbelow hdir hpath hignored
    exact ignoresFile_of_ignoresDirectory hopen hdirs hbelow hdir hpath hignored
  · intro disk root node maxDepth
    constructor
    · apply flatMap_walkFrom_isEntered hopen
      intro visit hvisit
      rw [hvisit, List.map_nil]
    · rw [scanCodeIn, flatMap_walkFrom_isEntered hopen]
      intro visit hvisit
      rw [filesRead_eq_filterMap_codeEntries, hvisit, List.filterMap_nil]

/-- Stars that match nothing in the path of the directory match a name with a line feed below it. -/
theorem ignored_directory_of_stars_holds_ignored_file :
    ∃ filter, ScanFilter.build ["src/***"] = .ok filter ∧
      filter.ignoresDirectory (.ofRoot ["repo"]) (.ofRoot ["repo", "src"]) = true ∧
        filter.ignoresFile (.ofRoot ["repo"]) (.ofRoot ["repo", "src", "a\nb", "main.js"]) = true := by
  have hvalid : ∀ line ∈ ["src/***"], ∃ pattern, Pattern.parse? line = .ok pattern := by
    intro line hline
    rw [List.mem_singleton.mp hline]
    exact exists_parse?_of_isOk (by decide +kernel)
  obtain ⟨filter, hbuild, hbelow, -⟩ :=
    ignored_directories_hold_ignored_files hvalid (by decide)
  have hfilter : filter =
      ⟨((parsePatterns (standardPatterns ++ withoutBlank ["src/***"])).toOption).getD []⟩ := by
    obtain ⟨patterns, hpatterns, rfl⟩ := except_map_eq_ok_iff.mp hbuild
    rw [hpatterns]
    rfl
  have hignored : filter.ignoresDirectory (.ofRoot ["repo"]) (.ofRoot ["repo", "src"]) = true := by
    rw [hfilter]
    decide +kernel
  have hdir : LeadsBelow (.ofRoot ["repo"]) ["src"] (.ofRoot ["repo", "src"]) := .absolute rfl
  have hpath : LeadsBelow (.ofRoot ["repo"]) (["src"] ++ ["a\nb", "main.js"])
      (.ofRoot ["repo", "src", "a\nb", "main.js"]) := .absolute rfl
  exact ⟨filter, hbuild, hignored,
    hbelow _ _ _ _ _ (by decide) (by decide) hdir hpath hignored⟩

end EnvFill.Project
