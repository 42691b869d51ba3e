import EnvFill.Proofs.SettingsFile

/-!
# Folders without links

In a folder to which and below which no link leads, a path stands for itself, and what a path to a
file of the folder leads to is decided by the entries of the folder. Writing a file there changes one
entry.
-/

namespace EnvFill.Storage

open Node

section Paths

variable {top : Node} {links : Nat} {place : Location} {names rest : List String} {disk : Disk}

/-- Without links on the way, a path is followed component by component. -/
theorem resolveFrom_of_not_link {steps : List String}
    (hlinks : ∀ front, front <+: steps → ∀ target, top.get? (front.foldl Pathname.addPart place) ≠
      some (.link target)) (depth : Nat) (met : LinksMet) :
    resolveFrom top depth met place steps = ⟨met, steps.foldl Pathname.addPart place, true⟩ := by
  induction steps generalizing place with
  | nil => rw [resolveFrom, List.foldl_nil]
  | cons step rest ih =>
    have hrest := @ih (Pathname.addPart place step) fun front hfront =>
      hlinks (step :: front) ((List.cons_prefix_cons).mpr ⟨rfl, hfront⟩)
    have hhere := hlinks [step] (by simp)
    rw [resolveFrom, List.foldl_cons]
    by_cases hstay : step = "" ∨ step = "."
    · have hsame : Pathname.addPart place step = place := by
        rcases hstay with rfl | rfl <;> rfl
      rw [if_pos (by simpa using hstay)]
      rwa [hsame] at hrest ⊢
    rw [if_neg (by simpa using hstay)]
    by_cases hup : step = ".."
    · subst hup
      exact (if_pos rfl).trans hrest
    have hdown : Pathname.addPart place step = place ++ [step] := by
      rw [not_or] at hstay
      simp [Pathname.addPart, hup, hstay]
    rw [List.foldl_cons, List.foldl_nil, hdown] at hhere
    rw [if_neg hup]
    dsimp only
    split
    · rename_i target hget
      exact absurd hget (hhere target)
    · rwa [hdown] at hrest ⊢

theorem foldl_addPart_of_isName (hnames : ∀ name ∈ names, IsName name) :
    names.foldl Pathname.addPart place = place ++ names := by
  induction names generalizing place with
  | nil => simp
  | cons name rest ih =>
    obtain ⟨hempty, hdot, hdots⟩ := hnames name List.mem_cons_self
    rw [List.foldl_cons, ih fun other hother => hnames other (List.mem_cons_of_mem name hother),
      Pathname.addPart, if_neg hdots, if_neg (by simp [hempty, hdot]), List.append_assoc,
      List.singleton_append]

theorem resolveFrom_of_isLinkFree (hnames : ∀ name ∈ names, IsName name)
    (hfree : IsLinkFree (place ++ names) top) (depth : Nat) (met : LinksMet) :
    resolveFrom top depth met place names = ⟨met, place ++ names, true⟩ := by
  rw [resolveFrom_of_not_link, foldl_addPart_of_isName hnames]
  intro front hfront
  rw [foldl_addPart_of_isName fun name hname => hnames name (hfront.subset hname)]
  exact hfree (place ++ front) ((List.prefix_append_right_inj place).mpr hfront)

theorem withoutParents_of_isName (hnames : ∀ name ∈ names, IsName name) :
    Pathname.withoutParents names = names :=
  foldl_addPart_of_isName hnames

/-- A place without links stands for itself. -/
theorem Disk.resolve_ofRoot (hnames : ∀ name ∈ place, IsName name)
    (hfree : IsLinkFree place disk.top) (hzero : (Pathname.ofRoot place).hasZero = false) :
    disk.resolve (.ofRoot place) = .ok place := by
  have hfree' : IsLinkFree ([] ++ place) disk.top := hfree
  have hsteps := resolveFrom_of_isLinkFree hnames hfree' disk.top.linkCount []
  have hplace : Pathname.withoutParents (resolveFrom disk.top disk.top.linkCount []
      (disk.startOf (.ofRoot place)) (Pathname.ofRoot place).parts).steps = place := by
    change Pathname.withoutParents
      (resolveFrom disk.top disk.top.linkCount [] [] place).steps = place
    rw [hsteps]
    exact withoutParents_of_isName hnames
  unfold Disk.resolve
  rw [hzero, if_neg Bool.false_ne_true]
  dsimp only
  rw [hplace]
  split
  · rename_i hmany
    exact absurd hmany (Disk.locate?_ofRoot_ne_tooManyLinks hnames hfree)
  · rfl

theorem Disk.eq_of_resolve_ofRoot (hnames : ∀ name ∈ names, IsName name)
    (hfree : IsLinkFree names disk.top) (hplace : disk.resolve (.ofRoot names) = .ok place) :
    place = names := by
  have hzero := (Disk.resolve_eq_ok hplace).1
  exact Except.ok.inj (hplace.symm.trans (Disk.resolve_ofRoot hnames hfree hzero))

/-- No link is met where a path is followed component by component. -/
def MeetsNoLink (disk : Disk) (path : Pathname) : Prop :=
  ∀ front, front <+: path.parts → ∀ target,
    disk.top.get? (Pathname.withoutParents front) ≠ some (.link target)

/-- A path that meets no link stands for the place that it writes. -/
theorem Disk.eq_withoutParents_of_resolve {path : Pathname} (hroot : path.isAbsolute = true)
    (hlinks : MeetsNoLink disk path) (hplace : disk.resolve path = .ok place) :
    place = Pathname.withoutParents path.parts := by
  have hstart : disk.startOf path = [] := if_pos hroot
  rw [(Disk.resolve_eq_ok hplace).2, hstart, resolveFrom_of_not_link hlinks]
  exact withoutParents_of_isName isName_of_mem_withoutParents

theorem isLinkFree_put_file {bytes : List UInt8} {content : Option (List UInt8)} {target : Location}
    (hfree : IsLinkFree place top) (hcontent : top.get? target = content.map .file) :
    IsLinkFree place (Node.put (.file bytes) target top) := by
  intro front hfront link hlink
  have hlinks := get?_put_eq_link_iff (get?_file_ne_link bytes) (get?_append_ne_link hcontent)
  exact hfree front hfront link ((hlinks _ _).mp hlink)

/-- Along directories, the rest of a path is followed from the last of them. -/
theorem locateFrom?_append_of_dir {entries : List (String × Node)}
    (hnames : ∀ name ∈ names, IsName name) (hshort : ∀ name ∈ names, isTooLong name = false)
    (hget : top.get? (place ++ names) = some (.dir entries)) :
    locateFrom? top links place (names ++ rest) = locateFrom? top links (place ++ names) rest := by
  induction names generalizing place with
  | nil => rw [List.nil_append, List.append_nil]
  | cons name names ih =>
    obtain ⟨-, hdot, hdots⟩ := hnames name List.mem_cons_self
    have happend : place ++ name :: names = (place ++ [name]) ++ names := by simp
    rw [happend] at hget ⊢
    obtain ⟨below, hbelow⟩ : ∃ below, top.get? (place ++ [name]) = some (.dir below) := by
      cases names with
      | nil => exact ⟨entries, by simpa using hget⟩
      | cons next names =>
        rw [get?_append] at hget
        obtain ⟨parent, hparent, hchild⟩ := Option.bind_eq_some_iff.mp hget
        cases parent with
        | dir below => exact ⟨below, hparent⟩
        | file bytes => simp [get?, Node.entries] at hchild
        | link target => simp [get?, Node.entries] at hchild
    rw [List.cons_append, locateFrom?, if_neg hdot, if_neg hdots,
      if_neg (by simp [hshort name List.mem_cons_self]), hbelow]
    exact ih (fun other hother => hnames other (List.mem_cons_of_mem name hother))
      (fun other hother => hshort other (List.mem_cons_of_mem name hother)) hget

theorem get?_concat_of_dir {entries : List (String × Node)}
    (hget : top.get? place = some (.dir entries)) (name : String) :
    top.get? (place ++ [name]) = entries.lookup name := by
  rw [get?_append, hget, Option.bind_some, get?, Node.entries]
  cases entries.lookup name <;> rfl

end Paths

/-! ### One folder -/

structure IsDirectory (disk : Disk) (folder : Location) (entries : List (String × Node)) : Prop where
  text : Disk.checkText (.ofRoot folder) = .ok ()
  names : ∀ name ∈ folder, IsName name
  short : ∀ name ∈ folder, isTooLong name = false
  linkFree : IsLinkFree folder disk.top
  get_eq : disk.top.get? folder = some (.dir entries)

/-- A folder whose path can be followed, with no link on the way to it or below it. -/
structure IsFolder (disk : Disk) (folder : Location) (entries : List (String × Node)) : Prop where
  text : Disk.checkText (.ofRoot folder) = .ok ()
  names : ∀ name ∈ folder, IsName name
  short : ∀ name ∈ folder, isTooLong name = false
  linkFree : IsLinkFree folder disk.top
  get_eq : disk.top.get? folder = some (.dir entries)
  linkCount_eq : entriesLinkCount entries = 0

section Folder

variable {disk : Disk} {folder : Location} {entries : List (String × Node)} {name : String}

theorem Disk.hasZero_of_checkText {path : Pathname} (htext : Disk.checkText path = .ok ()) :
    path.hasZero = false := by
  unfold Disk.checkText at htext
  split at htext
  · simp at htext
  · rename_i hzero
    simpa using hzero

theorem IsFolder.isDirectory (hfolder : IsFolder disk folder entries) : IsDirectory disk folder entries :=
  ⟨hfolder.text, hfolder.names, hfolder.short, hfolder.linkFree, hfolder.get_eq⟩

theorem IsDirectory.locate?_eq (hfolder : IsDirectory disk folder entries) :
    disk.locate? (.ofRoot folder) = .ok folder := by
  refine (Disk.locate?_ofRoot_eq_ok_iff hfolder.names hfolder.linkFree).mpr ⟨hfolder.text, rfl, ?_⟩
  exact ⟨hfolder.short, .inr (Option.isSome_of_eq_some hfolder.get_eq)⟩

theorem IsDirectory.resolve_eq (hfolder : IsDirectory disk folder entries) :
    disk.resolve (.ofRoot folder) = .ok folder :=
  Disk.resolve_ofRoot hfolder.names hfolder.linkFree (Disk.hasZero_of_checkText hfolder.text)

theorem IsFolder.resolve_eq (hfolder : IsFolder disk folder entries) :
    disk.resolve (.ofRoot folder) = .ok folder :=
  hfolder.isDirectory.resolve_eq

theorem IsFolder.locate?_eq (hfolder : IsFolder disk folder entries) :
    disk.locate? (.ofRoot folder) = .ok folder :=
  hfolder.isDirectory.locate?_eq

theorem IsFolder.get?_eq (hfolder : IsFolder disk folder entries) (name : String) :
    disk.top.get? (folder ++ [name]) = entries.lookup name :=
  get?_concat_of_dir hfolder.get_eq name

theorem IsFolder.lookup_ne_link (hfolder : IsFolder disk folder entries) (name target : String) :
    entries.lookup name ≠ some (.link target) := by
  intro hlink
  have hzero := linkCount_of_lookup hfolder.linkCount_eq hlink
  simp [linkCount] at hzero

theorem IsFolder.linkFree_child (hfolder : IsFolder disk folder entries) (name : String) :
    IsLinkFree (folder ++ [name]) disk.top := by
  intro front hfront target
  rcases List.prefix_concat_iff.mp hfront with rfl | hfront
  · rw [hfolder.get?_eq]
    exact hfolder.lookup_ne_link name target
  · exact hfolder.linkFree front hfront target

theorem forall_isName_concat (hnames : ∀ other ∈ folder, IsName other) (hname : IsName name) :
    ∀ other ∈ folder ++ [name], IsName other :=
  List.forall_mem_append.mpr ⟨hnames, List.forall_mem_singleton.mpr hname⟩

theorem IsFolder.names_child (hfolder : IsFolder disk folder entries) (hname : IsName name) :
    ∀ other ∈ folder ++ [name], IsName other :=
  forall_isName_concat hfolder.names hname

/-- A name of a directory that is no link leads to what the directory has under it. -/
theorem IsDirectory.locateFrom?_child (hfolder : IsDirectory disk folder entries) (hname : IsName name)
    (hlink : ∀ target, entries.lookup name ≠ some (.link target)) :
    locateFrom? disk.top maxLinks [] (folder ++ [name]) =
      if isTooLong name then .error .nameTooLong
      else if (entries.lookup name).isSome then .ok (folder ++ [name]) else .error .missing := by
  obtain ⟨-, hdot, hdots⟩ := hname
  have hget : disk.top.get? ([] ++ folder) = some (.dir entries) := hfolder.get_eq
  rw [locateFrom?_append_of_dir hfolder.names hfolder.short hget, List.nil_append,
    locateFrom?, if_neg hdot, if_neg hdots, get?_concat_of_dir hfolder.get_eq]
  split
  · rfl
  · cases hlookup : entries.lookup name with
    | none => rfl
    | some node =>
      cases node with
      | dir below =>
        dsimp only
        rw [locateFrom?]
        rfl
      | file bytes => rfl
      | link target => exact absurd hlookup (hlink target)

/-- What a path to a file of the folder leads to. -/
theorem IsFolder.bytes?_eq_ok_iff (hfolder : IsFolder disk folder entries) (hname : IsName name)
    (hzero : (Pathname.ofRoot (folder ++ [name])).hasZero = false) {found : Option (List UInt8)} :
    disk.bytes? (.ofRoot (folder ++ [name])) = .ok found ↔
      Disk.checkText (.ofRoot (folder ++ [name])) = .ok () ∧ isTooLong name = false ∧
        found = (entries.lookup name).bind Node.bytes? := by
  have hlocate := hfolder.isDirectory.locateFrom?_child hname (hfolder.lookup_ne_link name)
  have hpath : disk.locate? (.ofRoot (folder ++ [name])) =
      (Disk.checkText (.ofRoot (folder ++ [name]))).bind fun _ =>
        locateFrom? disk.top maxLinks [] (folder ++ [name]) := rfl
  unfold Disk.bytes? Disk.find Disk.findPlace
  rw [hpath, hlocate]
  cases htext : Disk.checkText (.ofRoot (folder ++ [name])) with
  | error error =>
    unfold Disk.checkText at htext
    rw [hzero, if_neg Bool.false_ne_true] at htext
    have herror : error = .nameTooLong := by
      split at htext
      · exact (Except.error.inj htext).symm
      · simp at htext
    simp [herror, Except.bind, Except.map, DiskError.isAbsence]
  | ok =>
    cases hlong : isTooLong name with
    | true => simp [Except.bind, Except.map, DiskError.isAbsence]
    | false =>
      cases hlookup : entries.lookup name with
      | none => simp [Except.bind, Except.map, DiskError.isAbsence, eq_comm]
      | some node =>
        simp [Except.bind, Except.map, hfolder.get?_eq, hlookup, eq_comm]

/-- The folder after a file was written in it. -/
theorem IsFolder.put (hfolder : IsFolder disk folder entries) {bytes : List UInt8}
    {content : Option (List UInt8)} (hcontent : entries.lookup name = content.map .file) :
    IsFolder (disk.put (folder ++ [name]) (.file bytes)) folder
      (putPair name (.file bytes) entries) where
  text := hfolder.text
  names := hfolder.names
  short := hfolder.short
  linkFree := by
    have htarget : disk.top.get? (folder ++ [name]) = content.map .file :=
      (hfolder.get?_eq name).trans hcontent
    exact isLinkFree_put_file hfolder.linkFree htarget
  get_eq := by
    rw [Disk.top_put, put_append, hfolder.get_eq, get?_put_self (hasRoom_of_get? hfolder.get_eq)]
    rfl
  linkCount_eq := by
    have hcount := entriesLinkCount_putPair name (.file bytes) entries
    rw [hcontent, hfolder.linkCount_eq, linkCount] at hcount
    exact (Nat.add_eq_zero_iff.mp hcount).1

def projectDisk (entries : List (String × Node)) : Disk := ⟨.dir [("app", .dir entries)], []⟩

theorem isDirectory_projectDisk (entries : List (String × Node)) :
    IsDirectory (projectDisk entries) ["app"] entries where
  text := by decide
  names := by decide
  short := by decide
  linkFree := by
    rintro front hfront target hlink
    rcases List.prefix_cons_iff.mp hfront with rfl | ⟨rest, rfl, hrest⟩
    · cases hlink
    · obtain rfl := List.prefix_nil.mp hrest
      cases hlink
  get_eq := rfl

theorem isFolder_projectDisk (hlinks : entriesLinkCount entries = 0) :
    IsFolder (projectDisk entries) ["app"] entries :=
  { isDirectory_projectDisk entries with linkCount_eq := hlinks }

end Folder

end EnvFill.Storage
