import EnvFill.Proofs.CoveredPaths
import EnvFill.Proofs.FinishedFolders
import EnvFill.Proofs.LineEnds

/-!
# Lines that users are advised to add

After saves, users are told to add the written file to the ignore file if this does not cover it. The line
names the file as it was chosen, seen from its folder, but ignore files are read from the project. So the
advice helps where the line covers the path below the project: with a single name in any ordinary folder, and
with a longer path only where the path below the project begins with it too.
-/

namespace EnvFill.Project

open Storage Ignore Text

variable {file : String} {text line : List Char} {bytes : List UInt8} {patterns : List Pattern}
  {project names : Location} {disk later : Disk} {before : Bool}

/-- A file whose path is literal as a line of patterns, and is one line. -/
structure IsAdvisable (file : String) : Prop where
  literal : IsLiteral file.toList
  lf : '\n' ∉ file.toList
  cr : '\r' ∉ file.toList

def isPathChar (c : Char) : Bool := c.isAlphanum || c == '.' || c == '-' || c == '_' || c == '/'

theorem isBlank_eq_false_of_isPathChar {c : Char} (hc : isPathChar c = true) : isBlank c = false := by
  simp only [isPathChar, Bool.or_eq_true, beq_iff_eq] at hc
  rcases hc with (((hletter | rfl) | rfl) | rfl) | rfl
  · exact isBlank_eq_false_of_isAlphanum hletter
  all_goals decide

theorem isAdvisable_of_forall (hne : file.toList ≠ []) (hroot : file.toList.head? ≠ some '/')
    (hchars : ∀ c ∈ file.toList, isPathChar c = true) : IsAdvisable file := by
  have hother : ∀ c, isPathChar c = false → c ∉ file.toList :=
    fun c hother hc => Bool.noConfusion (hother.symm.trans (hchars c hc))
  refine ⟨⟨⟨hroot, ?_, ?_⟩, ?_, ?_⟩, hother '\n' (by decide), hother '\r' (by decide)⟩
  · exact fun hhead => hother '!' (by decide) (List.mem_of_head? hhead)
  · exact fun hhead => hother '#' (by decide) (List.mem_of_head? hhead)
  · have hspecials : (specials.all fun c => !isPathChar c) = true := by decide
    intro c hc hspecial
    exact hother c (by simpa using List.all_eq_true.mp hspecials c hspecial) hc
  · obtain ⟨front, c, hfile⟩ := (List.eq_nil_or_concat' file.toList).resolve_left hne
    simp [hfile, isBlank_eq_false_of_isPathChar (hchars c (by simp [hfile]))]

def advisedLine (file : String) : List Char := file.toList ++ ['\n']

theorem endedLines_eq {front : List (List Char)} {last : List Char} (hlines : lines text = front ++ [last]) :
    endedLines text = front.map (· ++ ['\n']) ++ (if last = [] then [] else [last]) := by
  unfold endedLines
  rw [hlines]
  split
  · rename_i hnil
    simp at hnil
  · dsimp only
    rw [List.getLast?_concat, List.dropLast_concat]
    cases last <;> simp

/-- A line behind ended lines is one more. -/
theorem endedLines_append_line (hended : text = [] ∨ text.getLast? = some '\n') (hline : '\n' ∉ line) :
    endedLines (text ++ (line ++ ['\n'])) = endedLines text ++ [line ++ ['\n']] := by
  obtain ⟨front, last, hlines, htext⟩ := exists_endEach_append '\n' text
  have hclear : ∀ part ∈ front ++ [last], ∀ c ∈ part, (c == '\n') = false := by
    rw [← hlines]
    exact fun part hpart c hc => (forall_of_mem_splitAtEach hpart c hc).2
  obtain rfl : last = [] := by
    by_contra hlast
    rcases hended with hnil | hend
    · rw [hnil, eq_comm, List.append_eq_nil_iff] at htext
      exact hlast htext.2
    · rw [htext, List.getLast?_append_of_ne_nil _ hlast] at hend
      simpa using hclear last (by simp) '\n' (List.mem_of_getLast? hend)
  have hfront : ∀ part ∈ front ++ [line], ∀ c ∈ part, (c == '\n') = false := by
    refine List.forall_mem_append.mpr ⟨fun part hpart => hclear part (List.mem_append_left _ hpart), ?_⟩
    exact List.forall_mem_singleton.mpr (forall_beq_eq_false hline)
  have hmore : lines (text ++ (line ++ ['\n'])) = (front ++ [line]) ++ [[]] := by
    have hends : text ++ (line ++ ['\n']) = endEach '\n' (front ++ [line]) ++ [] := by simp [htext]
    rw [hends]
    exact splitAtEach_endEach_append (by decide) hfront []
  rw [endedLines_eq hlines, endedLines_eq hmore]
  simp

theorem unifyLineEnds_append_advisedLine (hfile : IsAdvisable file)
    (htext : unifyLineEnds bytes = Utf8.encodeText text) :
    unifyLineEnds (bytes ++ Utf8.encodeText (advisedLine file)) =
      Utf8.encodeText (text ++ advisedLine file) := by
  have hcr : Byte.cr ∉ Utf8.encodeText (advisedLine file) := by
    rw [Utf8.mem_encodeText_iff (by decide), advisedLine, List.mem_append, not_or]
    exact ⟨hfile.cr, by decide⟩
  have hhead : (Utf8.encodeText (advisedLine file)).head? ≠ some Byte.lf := by
    obtain ⟨c, rest, hcons⟩ := List.exists_cons_of_ne_nil hfile.literal.ne_nil
    have hlf : Byte.lf ∉ Utf8.encodeText [c] := by
      rw [Utf8.mem_encodeText_iff (by decide), List.mem_singleton]
      intro hc
      exact hfile.lf (by rw [hcons, ← hc]; exact List.mem_cons_self)
    intro hhead
    have hsplit : Utf8.encodeText (advisedLine file) =
        Utf8.encodeText [c] ++ Utf8.encodeText (rest ++ ['\n']) := by
      rw [advisedLine, hcons, Utf8.encodeText, Utf8.encodeText, Utf8.encodeText, ← List.flatMap_append]
      rfl
    have hne : Utf8.encodeText [c] ≠ [] := by simp [Utf8.encodeText]
    rw [hsplit, List.head?_append_of_ne_nil _ hne] at hhead
    exact hlf (List.mem_of_head? hhead)
  rw [unifyLineEnds_append_of_head? bytes hhead, unifyLineEnds_of_cr_not_mem hcr, htext, Utf8.encodeText,
    Utf8.encodeText, Utf8.encodeText, List.flatMap_append]

/-- The patterns with the line added are those without it and one more. -/
theorem exists_ignorePatterns_append (hfile : IsAdvisable file)
    (htext : unifyLineEnds bytes = Utf8.encodeText text) (hended : text = [] ∨ text.getLast? = some '\n')
    (hpatterns : ignorePatterns bytes = .ok patterns) :
    ∃ pattern, ignorePatterns (bytes ++ Utf8.encodeText (advisedLine file)) = .ok (patterns ++ [pattern]) ∧
      pattern.negated = false ∧ ∀ text, pattern.regex.occursIn text = true ↔ Covers file.toList text := by
  obtain ⟨pattern, hparse, hkept, hoccurs⟩ :=
    exists_parse?_literal hfile.literal (List.forall_mem_singleton.mpr (by decide : isBlank '\n' = true))
  refine ⟨pattern, ?_, hkept, hoccurs⟩
  have hone : parsePatterns [String.ofList (advisedLine file)] = .ok [pattern] := by
    rw [parsePatterns, advisedLine, hparse]
    rfl
  have hlines : (endedLines (text ++ advisedLine file)).map String.ofList =
      (endedLines text).map String.ofList ++ [String.ofList (advisedLine file)] := by
    rw [advisedLine, endedLines_append_line hended hfile.lf, List.map_append, List.map_singleton]
  unfold ignorePatterns at hpatterns ⊢
  rw [Utf8.decodeStrict?_eq_some_iff_encodeText.mpr htext] at hpatterns
  rw [Utf8.decodeStrict?_eq_some_iff_encodeText.mpr (unifyLineEnds_append_advisedLine hfile htext)]
  dsimp only at hpatterns ⊢
  cases hparsed : parsePatterns ((endedLines text).map String.ofList) with
  | error error =>
    rw [hparsed] at hpatterns
    cases hpatterns
  | ok all =>
    rw [hparsed] at hpatterns
    obtain rfl := Except.ok.inj hpatterns
    rw [hlines, parsePatterns_append hparsed hone]
    rfl

/-- **With the line added** the paths that it covers are ignored too. -/
theorem exists_isIgnored?_append (hfile : IsAdvisable file)
    (hbytes : disk.bytes? ((Pathname.ofRoot project).join (.ofString ".gitignore")) = .ok (some bytes))
    (htext : unifyLineEnds bytes = Utf8.encodeText text) (hended : text = [] ∨ text.getLast? = some '\n')
    (hlater : later.bytes? ((Pathname.ofRoot project).join (.ofString ".gitignore")) =
      .ok (some (bytes ++ Utf8.encodeText (advisedLine file))))
    (hbefore : isIgnored? disk (.ofRoot project) (.ofRoot (project ++ names)) = .ok (some before)) :
    ∃ ignored, isIgnored? later (.ofRoot project) (.ofRoot (project ++ names)) = .ok (some ignored) ∧
      (ignored = true ↔ before = true ∨ Covers file.toList (plainPath (seenText names))) := by
  have hpath : LeadsBelow (.ofRoot project) names (.ofRoot (project ++ names)) := .absolute rfl
  rw [isIgnored?_eq_of_bytes hbytes] at hbefore
  obtain ⟨patterns, hpatterns, hbefore⟩ := except_bind_eq_ok_iff.mp hbefore
  obtain ⟨pattern, hmore, hkept, hoccurs⟩ := exists_ignorePatterns_append hfile htext hended hpatterns
  rw [visiblePath?_of_leadsBelow hpath, Option.any_some] at hbefore
  have hbefore : ignores patterns (String.ofList (seenText names)) = before :=
    Option.some.inj (Except.ok.inj hbefore)
  refine ⟨ignores (patterns ++ [pattern]) (String.ofList (seenText names)), ?_, ?_⟩
  · rw [isIgnored?_eq_of_bytes hlater, hmore, visiblePath?_of_leadsBelow hpath]
    rfl
  · rw [ignores_concat, String.toList_ofList, hbefore, ← hoccurs, hkept]
    split <;> rename_i hcovers <;> simp [hcovers]

end EnvFill.Project

namespace EnvFill.Command

open Procedure Storage Ignore Project Screen Text

variable {task : FolderTask} {file : String} {target names : Location} {world : World} {disk later : Disk}
  {bytes : List UInt8} {text : List Char}

/-- The warning names the file as it was chosen. -/
theorem exists_warned (file : String)
    (hwarned : isIgnored? world.disk (.ofRoot task.project) (.ofRoot target) = .ok (some false)) :
    ∃ warned, Succeeds (checkIgnored task target file) world () warned ∧
      warned.terminal.events = world.terminal.events ++ notIgnoredWarning file := by
  have hlook : Succeeds (lookUp fun disk => isIgnored? disk (.ofRoot task.project) (.ofRoot target)) world
      (some false) world := succeeds_lookUp_iff.mpr ⟨hwarned, rfl⟩
  have hshow : Succeeds (display (notIgnoredWarning file)) world () { world with terminal :=
      { world.terminal with events := world.terminal.events ++ notIgnoredWarning file } } :=
    succeeds_display_iff.mpr rfl
  exact ⟨_, succeeds_bind_iff.mpr ⟨some false, world, hlook, hshow⟩, rfl⟩

theorem path_eq_ofRoot (hroot : file.toList.head? ≠ some '/') :
    task.path file = .ofRoot (task.folder ++ Pathname.partsOf file.toList) := by
  have hanchor : Pathname.anchorOf file.toList = .current := by
    unfold Pathname.anchorOf
    cases hfile : file.toList with
    | nil => rfl
    | cons c rest =>
      have hc : (c == '/') = false := by simpa [hfile] using hroot
      rw [List.takeWhile_cons_of_neg (by simp [hc])]
      rfl
  unfold FolderTask.path Pathname.join Pathname.ofString
  rw [hanchor]
  rfl

/-- The components of a plainly written path are those between its slashes. -/
theorem partsOf_eq_map (hnames : ∀ part ∈ splitAtEach (· == '/') text, IsName (String.ofList part)) :
    Pathname.partsOf text = (splitAtEach (· == '/') text).map String.ofList := by
  unfold Pathname.partsOf
  rw [List.filter_eq_self.mpr]
  intro part hpart
  obtain ⟨hempty, hdot, -⟩ := hnames part hpart
  have hnil : part ≠ [] := by
    rintro rfl
    exact hempty rfl
  have hone : part ≠ ['.'] := by
    rintro rfl
    exact hdot rfl
  simp [hnil, hone]

theorem intercalate_partsOf
    (hnames : ∀ part ∈ splitAtEach (· == '/') text, IsName (String.ofList part)) :
    ['/'].intercalate ((Pathname.partsOf text).map String.toList) = text := by
  have hsame : String.toList ∘ String.ofList = id := funext fun _ => String.toList_ofList
  rw [partsOf_eq_map hnames, List.map_map, hsame, List.map_id, intercalate_splitAtEach]

/-- In ordinary folders, a plainly written path lies below the project as it is written. -/
theorem names_eq_of_resolve {dirs : List String} (hroot : file.toList.head? ≠ some '/')
    (hlinks : MeetsNoLink disk (task.path file))
    (hplace : disk.resolve (task.path file) = .ok (task.project ++ names))
    (hfolder : task.folder = task.project ++ dirs) (hdirs : ∀ dir ∈ dirs, IsName dir)
    (hparts : ∀ part ∈ Pathname.partsOf file.toList, IsName part) :
    names = dirs ++ Pathname.partsOf file.toList := by
  have hproject : ∀ name ∈ task.project, IsName name :=
    fun name hname => Disk.isName_of_resolve hplace name (List.mem_append_left _ hname)
  have hall : ∀ name ∈ task.project ++ (dirs ++ Pathname.partsOf file.toList), IsName name :=
    List.forall_mem_append.mpr ⟨hproject, List.forall_mem_append.mpr ⟨hdirs, hparts⟩⟩
  have hpath := @path_eq_ofRoot task _ hroot
  rw [hfolder, List.append_assoc] at hpath
  rw [hpath] at hlinks hplace
  have hnames := Disk.eq_withoutParents_of_resolve rfl hlinks hplace
  exact List.append_cancel_left (hnames.trans (withoutParents_of_isName hall))

theorem isClean_of_mem_partsOf (hfile : IsAdvisable file)
    (hnames : ∀ part ∈ splitAtEach (· == '/') file.toList, IsName (String.ofList part)) :
    ∀ part ∈ Pathname.partsOf file.toList, IsName part ∧ IsClean part := by
  rw [partsOf_eq_map hnames, List.forall_mem_map]
  intro part hpart
  have hchars := forall_of_mem_splitAtEach hpart
  obtain ⟨hempty, hdot, -⟩ := hnames part hpart
  refine ⟨hnames part hpart, ⟨?_, ?_, ?_, ?_, ?_⟩⟩ <;> rw [String.toList_ofList]
  · rintro rfl
    exact hempty rfl
  · rintro rfl
    exact hdot rfl
  · exact fun hslash => by simpa using (hchars '/' hslash).2
  · exact fun hescape => hfile.literal.plain '\\' (hchars '\\' hescape).1 (by decide)
  · exact fun hlf => hfile.lf (hchars '\n' hlf).1

/-- **When the advice helps.** If users are warned that the ignore file does not cover the file that was
written, and add the line that they are told to add, then the file is ignored just where the line covers its
path below the project. In ordinary folders and for a plainly written path this is so if the path is a single
name, or if the path below the project begins with it. -/
theorem ignored_after_advice_iff (hfile : IsAdvisable file) (hlinks : MeetsNoLink world.disk (task.path file))
    (hplace : world.disk.resolve (task.path file) = .ok (task.project ++ names))
    (hbytes : world.disk.bytes? ((Pathname.ofRoot task.project).join (.ofString ".gitignore")) =
      .ok (some bytes))
    (htext : unifyLineEnds bytes = Utf8.encodeText text) (hended : text = [] ∨ text.getLast? = some '\n')
    (hlater : later.bytes? ((Pathname.ofRoot task.project).join (.ofString ".gitignore")) =
      .ok (some (bytes ++ Utf8.encodeText (advisedLine file))))
    (hwarned : isIgnored? world.disk (.ofRoot task.project) (.ofRoot (task.project ++ names)) =
      .ok (some false)) :
    (∃ warned, Succeeds (checkIgnored task (task.project ++ names) file) world () warned ∧
        warned.terminal.events = world.terminal.events ++ notIgnoredWarning file) ∧
      ∃ ignored, isIgnored? later (.ofRoot task.project) (.ofRoot (task.project ++ names)) =
          .ok (some ignored) ∧
        (ignored = true ↔ Covers file.toList (plainPath (seenText names))) ∧
        ∀ dirs, task.folder = task.project ++ dirs → (∀ dir ∈ dirs, IsName dir ∧ IsClean dir) →
          (∀ part ∈ splitAtEach (· == '/') file.toList, IsName (String.ofList part)) →
          (ignored = true ↔ (Pathname.partsOf file.toList).length = 1 ∨
            Pathname.partsOf file.toList <+: dirs ++ Pathname.partsOf file.toList) := by
  obtain ⟨ignored, hignored, hcovers⟩ := exists_isIgnored?_append hfile hbytes htext hended hlater hwarned
  rw [or_iff_right Bool.false_ne_true] at hcovers
  refine ⟨exists_warned file hwarned, ignored, hignored, hcovers, fun dirs hfolder hdirs hwritten => ?_⟩
  have hparts := isClean_of_mem_partsOf hfile hwritten
  have hnames := names_eq_of_resolve hfile.literal.head_ne.1 hlinks hplace hfolder
    (fun dir hdir => (hdirs dir hdir).1) fun part hpart => (hparts part hpart).1
  have hne : Pathname.partsOf file.toList ≠ [] := by
    rw [partsOf_eq_map hwritten]
    simp [splitAtEach_ne_nil]
  rw [hcovers, hnames, ← covers_seenText_append_iff (fun dir hdir => (hdirs dir hdir).2)
    (fun part hpart => (hparts part hpart).2) hne, intercalate_partsOf hwritten]

/-! ### A project with a folder below it -/

/-- A project with an ignore file, and a folder whose settings lie in a directory of their own. -/
def nestedEntries (ignoreFile : List UInt8) : List (String × Node) :=
  [(".gitignore", .file ignoreFile),
    ("a", .dir [("config", .dir [(".env", .file (Utf8.encodeText "A=1\n".toList))])])]

def nestedProject (ignoreFile : List UInt8) : Disk := projectDisk (nestedEntries ignoreFile)

def nestedTask : FolderTask := ⟨["app", "a"], none, ["app"]⟩

theorem bytes?_nestedProject (ignoreFile : List UInt8) :
    (nestedProject ignoreFile).bytes? ((Pathname.ofRoot nestedTask.project).join (.ofString ".gitignore")) =
      .ok (some ignoreFile) := by
  have hfolder : IsFolder (nestedProject ignoreFile) ["app"] (nestedEntries ignoreFile) :=
    isFolder_projectDisk rfl
  have hpath : (Pathname.ofRoot nestedTask.project).join (.ofString ".gitignore") =
      .ofRoot (["app"] ++ [".gitignore"]) := by decide
  unfold Disk.bytes?
  rw [hpath, hfolder.find_eq (by decide)]
  rfl

theorem isAdvisable_nested : IsAdvisable "config/.env" :=
  isAdvisable_of_forall (by decide) (by decide) (List.all_eq_true.mp (by decide))

theorem meetsNoLink_nested : MeetsNoLink (nestedProject []) (nestedTask.path "config/.env") :=
  fun front _ => Node.isLinkFree_of_linkCount rfl (Pathname.withoutParents front) _ List.prefix_rfl

theorem resolve_nested : (nestedProject []).resolve (nestedTask.path "config/.env") =
    .ok (nestedTask.project ++ ["a", "config", ".env"]) := by
  have hpath : nestedTask.path "config/.env" = .ofRoot ["app", "a", "config", ".env"] := by decide
  rw [hpath]
  exact Disk.resolve_ofRoot (by unfold IsName; decide) (Node.isLinkFree_of_linkCount rfl _) (by decide)

theorem bytes?_nested :
    (nestedProject []).bytes? (.ofRoot (nestedTask.project ++ ["a", "config", ".env"])) =
      .ok (some (Utf8.encodeText "A=1\n".toList)) := by
  have hfolder : IsFolder (nestedProject []) ["app", "a", "config"]
      [(".env", .file (Utf8.encodeText "A=1\n".toList))] := by
    refine ⟨by decide, by unfold IsName; decide, by decide, ?_, rfl, rfl⟩
    exact Node.isLinkFree_of_linkCount rfl _
  have hpath : nestedTask.project ++ ["a", "config", ".env"] = ["app", "a", "config"] ++ [".env"] := rfl
  unfold Disk.bytes?
  rw [hpath, hfolder.find_eq (by decide)]
  rfl

theorem isIgnored?_nested :
    isIgnored? (nestedProject []) (.ofRoot nestedTask.project)
      (.ofRoot (nestedTask.project ++ ["a", "config", ".env"])) = .ok (some false) := by
  have hnone : ignorePatterns [] = .ok [] := by cbv
  have hpath : LeadsBelow (.ofRoot nestedTask.project) ["a", "config", ".env"]
      (.ofRoot (nestedTask.project ++ ["a", "config", ".env"])) := .absolute rfl
  rw [isIgnored?_eq_of_bytes (bytes?_nestedProject []), hnone, visiblePath?_of_leadsBelow hpath]
  rfl

theorem not_covers_nested : ¬Covers "config/.env".toList (plainPath (seenText ["a", "config", ".env"])) := by
  have hparts : "config/.env".toList = ['/'].intercalate (["config", ".env"].map String.toList) := by decide
  have hnames : ["a", "config", ".env"] = ["a"] ++ ["config", ".env"] := rfl
  rw [hparts, hnames, covers_seenText_append_iff (by decide) (by decide) (by decide)]
  decide

/-- Of a project with a nested folder, the advised line is read below the project. -/
theorem ignored_after_advice_iff_of_nested :
    (∃ warned, Succeeds (checkIgnored nestedTask ["app", "a", "config", ".env"] "config/.env")
        (.start (nestedProject []) []) () warned ∧
        warned.terminal.events = notIgnoredWarning "config/.env") ∧
      ∃ ignored, isIgnored? (nestedProject (Utf8.encodeText (advisedLine "config/.env"))) (.ofRoot ["app"])
          (.ofRoot ["app", "a", "config", ".env"]) = .ok (some ignored) ∧
        (ignored = true ↔ Covers "config/.env".toList (plainPath (seenText ["a", "config", ".env"]))) ∧
        (ignored = true ↔ ["config", ".env"].length = 1 ∨
          ["config", ".env"] <+: ["a"] ++ ["config", ".env"]) := by
  have htext : unifyLineEnds [] = Utf8.encodeText [] := rfl
  have hclean : ∀ dir ∈ ["a"], IsName dir ∧ IsClean dir := by
    unfold IsName
    decide
  have hwritten : ∀ part ∈ splitAtEach (· == '/') "config/.env".toList, IsName (String.ofList part) := by
    unfold IsName
    decide
  obtain ⟨hwarned, ignored, hignored, hcovers, hplain⟩ :=
    @ignored_after_advice_iff _ _ _ (.start (nestedProject []) []) _ _ _ isAdvisable_nested meetsNoLink_nested
      resolve_nested (bytes?_nestedProject []) htext (.inl rfl)
      (bytes?_nestedProject (Utf8.encodeText (advisedLine "config/.env"))) isIgnored?_nested
  exact ⟨hwarned, ignored, hignored, hcovers, hplain ["a"] rfl hclean hwritten⟩

/-- **The line does not help in a nested folder.** It names the file as seen from the folder. -/
theorem advised_line_leaves_nested_file :
    ¬∀ (task : FolderTask) (file : String) (names : Location) (disk later : Disk)
      (bytes content : List UInt8) (text : List Char),
      task.project <+: task.folder → file.toList ≠ [] → file.toList.head? ≠ some '/' →
        (∀ c ∈ file.toList, isPathChar c = true) → MeetsNoLink disk (task.path file) →
        disk.resolve (task.path file) = .ok (task.project ++ names) →
        disk.bytes? (.ofRoot (task.project ++ names)) = .ok (some content) →
        disk.bytes? ((Pathname.ofRoot task.project).join (.ofString ".gitignore")) = .ok (some bytes) →
        unifyLineEnds bytes = Utf8.encodeText text → text = [] ∨ text.getLast? = some '\n' →
        later.bytes? ((Pathname.ofRoot task.project).join (.ofString ".gitignore")) =
          .ok (some (bytes ++ Utf8.encodeText (advisedLine file))) →
        isIgnored? disk (.ofRoot task.project) (.ofRoot (task.project ++ names)) = .ok (some false) →
          isIgnored? later (.ofRoot task.project) (.ofRoot (task.project ++ names)) = .ok (some true) := by
  intro hall
  have htext : unifyLineEnds [] = Utf8.encodeText [] := rfl
  have hlater := bytes?_nestedProject (Utf8.encodeText (advisedLine "config/.env"))
  have hignored := hall nestedTask "config/.env" ["a", "config", ".env"] (nestedProject []) _ [] _ []
    ⟨["a"], rfl⟩ (by decide) (by decide) (List.all_eq_true.mp (by decide)) meetsNoLink_nested resolve_nested
    bytes?_nested (bytes?_nestedProject []) htext (.inl rfl) hlater isIgnored?_nested
  obtain ⟨ignored, hother, hcovers⟩ := exists_isIgnored?_append isAdvisable_nested (bytes?_nestedProject [])
    htext (.inl rfl) hlater isIgnored?_nested
  obtain rfl : ignored = true := Option.some.inj (Except.ok.inj (hother.symm.trans hignored))
  exact not_covers_nested ((hcovers.mp rfl).resolve_left Bool.false_ne_true)

end EnvFill.Command
