import EnvFill.Proofs.DiskChanges
import EnvFill.Proofs.FolderWrites
import EnvFill.Proofs.Results

/-!
# Which files can be written

A file can be written at a place to which no link leads just where nothing is in the way: what is there
above it are directories, there is none in its place, and its names and its path leave room for a draft.
-/

namespace EnvFill.Storage

open Node Edit

/-- Along directories to where nothing is, what a path leads to is missing. -/
theorem locateFrom?_of_none {top node : Node} {links : Nat} {start : Location} {names rest : List String}
    (hnames : ∀ name ∈ names, IsName name) (hshort : ∀ name ∈ names, isTooLong name = false)
    (hstart : top.get? start = some node) (hroom : HasRoom names node)
    (hnone : node.get? names = none) :
    locateFrom? top links start (names ++ rest) = .error .missing := by
  induction names generalizing start node with
  | nil => exact absurd hnone (Option.some_ne_none node)
  | cons name names ih =>
    obtain ⟨-, hdot, hdots⟩ := hnames name List.mem_cons_self
    cases node with
    | file bytes => exact hroom.elim
    | link target => exact hroom.elim
    | dir entries =>
      have hchild := get?_concat_of_dir hstart name
      rw [List.cons_append, locateFrom?, if_neg hdot, if_neg hdots,
        if_neg (by simp [hshort name List.mem_cons_self]), hchild]
      rw [HasRoom] at hroom
      cases hlookup : entries.lookup name with
      | none => rfl
      | some child =>
        have hbelow : child.get? names = none := by
          rw [get?, Node.entries, hlookup] at hnone
          exact hnone
        rw [hlookup, Option.getD_some] at hroom
        rw [hlookup] at hchild
        have hih := ih (fun other hother => hnames other (List.mem_cons_of_mem name hother))
          (fun other hother => hshort other (List.mem_cons_of_mem name hother)) hchild hroom hbelow
        cases names with
        | nil => exact absurd hbelow (Option.some_ne_none child)
        | cons next names =>
          cases child with
          | file bytes => exact hroom.elim
          | link target => exact hroom.elim
          | dir below => exact hih

section Writes

variable {disk after : Disk} {place folder : Location} {name : String} {bytes : List UInt8}

def HasShortPath (place : Location) : Prop :=
  ∃ folder name, place = folder ++ [name] ∧ (∀ other ∈ folder, isTooLong other = false) ∧
    HasRoomFor folder name

structure CanBeWritten (disk : Disk) (place : Location) : Prop where
  short : HasShortPath place
  room : HasRoom place disk.top
  notDir : ¬IsDirAt disk place

/-- Below a place where nothing is, no directory can be made, as the one above it is missing. -/
theorem fails_ensureDirectory_of_none (hnames : ∀ other ∈ folder, IsName other)
    (hshort : ∀ other ∈ folder, isTooLong other = false)
    (htext : Disk.checkText (.ofRoot (folder ++ [name])) = .ok ()) (hroom : HasRoom folder disk.top)
    (hnone : disk.top.get? folder = none) :
    Fails (ensureDirectory (.ofRoot (folder ++ [name]))) disk .missing disk := by
  have hlocate : disk.locateDirectory? (.ofRoot folder) = .error .missing := by
    unfold Disk.locateDirectory?
    rw [Disk.checkText_front htext]
    exact locateFrom?_of_none hnames hshort rfl hroom hnone
  have hentry : disk.entryPlace? (.ofRoot (folder ++ [name])) = .error .missing := by
    unfold Disk.entryPlace?
    rw [htext, Pathname.parent_ofRoot_concat, hlocate]
    rfl
  exact fails_ensureDirectory_iff.mpr ⟨rfl, .missing, fails_makeDirectory_iff.mpr ⟨rfl, .inl hentry⟩,
    .inl ⟨rfl, .inl rfl⟩⟩

/-- Directories can be made where what is there above them are directories. -/
theorem exists_succeeds_ensureDirectories (hnames : ∀ name ∈ place, IsName name)
    (hfree : IsLinkFree place disk.top) (hshort : ∀ name ∈ place, isTooLong name = false)
    (htext : Disk.checkText (.ofRoot place) = .ok ())
    (hroom : HasRoom place disk.top)
    (hdir : disk.top.get? place = none ∨ ∃ entries, disk.top.get? place = some (.dir entries)) :
    ∃ after, Succeeds (ensureDirectories (.ofRoot place)) disk () after := by
  obtain hnone | ⟨entries, hget⟩ := hdir
  swap
  · exact ⟨disk, IsDirectory.succeeds_ensureDirectories ⟨htext, hnames, hshort, hfree, hget⟩⟩
  -- Nothing is there, so it is made in the directory above, which is there or made before it.
  induction place using List.reverseRecOn with
  | nil => exact absurd hnone (Option.some_ne_none _)
  | append_singleton front name ih =>
    have hnamesFront : ∀ other ∈ front, IsName other :=
      fun other hother => hnames other (List.mem_append_left _ hother)
    have hshortFront : ∀ other ∈ front, isTooLong other = false :=
      fun other hother => hshort other (List.mem_append_left _ hother)
    have hfreeFront := hfree.of_front (List.prefix_append front [name])
    have htextFront := Disk.checkText_front htext
    have hname := hnames name (by simp)
    have hshortName := hshort name (by simp)
    obtain ⟨hroomFront, hroomName⟩ := hasRoom_append.mp hroom
    cases hfront : disk.top.get? front with
    | some node =>
      rw [hfront] at hroomName
      cases node with
      | file bytes => exact hroomName.elim
      | link target => exact hroomName.elim
      | dir entries =>
        have hfolder : IsDirectory disk front entries :=
          ⟨htextFront, hnamesFront, hshortFront, hfreeFront, hfront⟩
        rw [get?_concat_of_dir hfront] at hnone
        exact ⟨_, hfolder.succeeds_ensureDirectories_new hname htext hshortName hnone⟩
    | none =>
      obtain ⟨made, hmade⟩ := ih hnamesFront hfreeFront hshortFront htextFront hroomFront hfront
      obtain ⟨-, rfl⟩ := (succeeds_ensureDirectories hnamesFront hfreeFront hmade).resolve_left
        fun hthere => by simp [hfront] at hthere
      have hget : (disk.put front (.dir [])).top.get? front = some (.dir []) := get?_put_self hroomFront
      have hfolder : IsDirectory (disk.put front (.dir [])) front [] :=
        ⟨htextFront, hnamesFront, hshortFront, isLinkFree_put_dir hfreeFront hfront, hget⟩
      refine ⟨(disk.put front (.dir [])).put (front ++ [name]) (.dir []), ?_⟩
      rw [ensureDirectories]
      refine succeeds_tryCatch_iff.mpr (.inr ⟨.missing, disk,
        fails_ensureDirectory_of_none hnamesFront hshortFront htext hroomFront hfront, ?_⟩)
      rw [dif_pos ⟨rfl, by simp [Pathname.ofRoot]⟩, Pathname.parent_ofRoot_concat]
      exact succeeds_bind_iff.mpr
        ⟨(), _, hmade, hfolder.succeeds_ensureDirectory_new hname htext hshortName rfl⟩

theorem exists_find_eq_ok (hnames : ∀ name ∈ place, IsName name) (hfree : IsLinkFree place disk.top)
    (htext : Disk.checkText (.ofRoot place) = .ok ()) (hshort : ∀ name ∈ place, isTooLong name = false) :
    ∃ node, disk.find (.ofRoot place) = .ok node := by
  cases hget : disk.top.get? place with
  | none => exact ⟨none, Disk.find_ofRoot_of_none hnames hfree htext hshort hget⟩
  | some node =>
    have hlocate : disk.locate? (.ofRoot place) = .ok place :=
      (Disk.locate?_ofRoot_eq_ok_iff hnames hfree).mpr
        ⟨htext, rfl, hshort, .inr (Option.isSome_of_eq_some hget)⟩
    refine ⟨some node, ?_⟩
    unfold Disk.find Disk.findPlace
    rw [hlocate, ← hget]
    rfl

/-- A draft that is possible leaves room for itself. -/
theorem hasRoomFor_of_checkDraft (hnames : ∀ other ∈ folder ++ [name], IsName other)
    (htext : Disk.checkText (.ofRoot (folder ++ [name])) = .ok ())
    (hdraft : disk.checkDraft (.ofRoot (folder ++ [name])) = .ok ()) : HasRoomFor folder name := by
  have hplain : Pathname.withoutParents (Pathname.ofRoot folder).parts = folder :=
    withoutParents_of_isName fun other hother => hnames other (List.mem_append_left _ hother)
  unfold Disk.checkDraft at hdraft
  rw [Pathname.parent_ofRoot_concat, Pathname.name?_ofRoot_concat, hplain, Option.getD_some] at hdraft
  dsimp only at hdraft
  split at hdraft
  · cases hdraft
  rename_i hzero
  split at hdraft
  · cases hdraft
  rename_i hpath
  obtain ⟨_, -, hlast⟩ := except_bind_eq_ok_iff.mp hdraft
  split at hlast
  · cases hlast
  rename_i hname
  exact ⟨hnames name (by simp), by simpa using hzero, htext, not_lt.mp hpath, not_lt.mp hname⟩

/-- The directory of a file that is possible can be made. -/
theorem CanBeWritten.exists_made (hcan : CanBeWritten disk (folder ++ [name]))
    (hnames : ∀ other ∈ folder, IsName other) (hshort : ∀ other ∈ folder, isTooLong other = false)
    (hfree : IsLinkFree folder disk.top) (htext : Disk.checkText (.ofRoot folder) = .ok ()) :
    ∃ made entries, Succeeds (ensureDirectories (.ofRoot folder)) disk () made ∧
      IsMade folder disk made ∧ IsDirectory made folder entries := by
  obtain ⟨hroomFolder, hroomName⟩ := hasRoom_append.mp hcan.room
  have hdir : disk.top.get? folder = none ∨ ∃ entries, disk.top.get? folder = some (.dir entries) := by
    cases hget : disk.top.get? folder with
    | none => exact .inl rfl
    | some node =>
      rw [hget] at hroomName
      cases node with
      | dir entries => exact .inr ⟨entries, rfl⟩
      | file bytes => exact hroomName.elim
      | link target => exact hroomName.elim
  obtain ⟨made, hmake⟩ := exists_succeeds_ensureDirectories hnames hfree hshort htext hroomFolder hdir
  have hmade := succeeds_ensureDirectories hnames hfree hmake
  have hfreeMade := isLinkFree_of_isMade hfree hmade
  rcases hmade with ⟨⟨entries, hget⟩, rfl⟩ | ⟨hnone, rfl⟩
  · exact ⟨made, entries, hmake, .inl ⟨⟨entries, hget⟩, rfl⟩, htext, hnames, hshort, hfree, hget⟩
  · exact ⟨_, [], hmake, .inr ⟨hnone, rfl⟩, htext, hnames, hshort, hfreeMade, get?_put_self hroomFolder⟩

/-- Making the directory of a file leaves the file as it is. -/
theorem IsMade.get?_concat (hmade : IsMade folder disk after) (name : String) :
    after.top.get? (folder ++ [name]) = disk.top.get? (folder ++ [name]) := by
  rcases hmade with ⟨-, rfl⟩ | ⟨hnone, rfl⟩
  · rfl
  · have hbefore : disk.top.get? (folder ++ [name]) = none := by
      rw [get?_append, hnone, Option.bind_none]
    rw [hbefore, Disk.top_put, get?_append]
    by_cases hroom : HasRoom folder disk.top
    · rw [get?_put_self hroom]
      rfl
    · rw [put_of_not_hasRoom hroom, hnone, Option.bind_none]

theorem IsMade.put_concat (hmade : IsMade folder disk after) (name : String) (node : Node) :
    after.put (folder ++ [name]) node = disk.put (folder ++ [name]) node := by
  rcases hmade with ⟨-, rfl⟩ | ⟨hnone, rfl⟩
  · rfl
  · exact Disk.put_put_dir hnone [name] node

/-- **A file can be written** just where nothing is in its way. -/
theorem succeeds_replaceFile_iff (hnames : ∀ name ∈ place, IsName name)
    (hfree : IsLinkFree place disk.top) :
    Succeeds (replaceFile (.ofRoot place) bytes) disk () after ↔
      CanBeWritten disk place ∧ after = disk.put place (.file bytes) := by
  constructor
  · intro hwrite
    obtain ⟨hwritable, rfl⟩ := succeeds_replaceFile hnames hfree hwrite
    obtain ⟨folder, name, rfl⟩ := (List.eq_nil_or_concat' place).resolve_left hwritable.ne_nil
    obtain ⟨made, entry, hmake, hdraft, -, hentry, hfile, -⟩ := succeeds_replaceFile_iff_steps.mp hwrite
    rw [Pathname.parent_ofRoot_concat] at hmake
    have hmade := succeeds_ensureDirectories
      (fun other hother => hnames other (List.mem_append_left _ hother))
      (hfree.of_front (List.prefix_append folder [name])) hmake
    obtain ⟨rfl, -⟩ := Disk.entryPlace?_ofRoot hnames (isLinkFree_of_isMade hfree hmade) hentry
    unfold IsDirAt at hfile
    rw [hmade.get?_concat] at hfile
    refine ⟨⟨⟨folder, name, rfl, fun other hother => ?_, ?_⟩, hwritable.room, hfile⟩, rfl⟩
    · exact hwritable.short other (List.mem_append_left _ hother)
    · exact hasRoomFor_of_checkDraft hnames hwritable.text hdraft
  · rintro ⟨hcan, rfl⟩
    obtain ⟨folder, name, rfl, hshort, hfits⟩ := hcan.short
    have hshortAll : ∀ other ∈ folder ++ [name], isTooLong other = false :=
      List.forall_mem_append.mpr ⟨hshort, List.forall_mem_singleton.mpr hfits.isTooLong_eq⟩
    obtain ⟨made, entries, hmake, hmade, hfolder⟩ :=
      hcan.exists_made (fun other hother => hnames other (List.mem_append_left _ hother)) hshort
        (hfree.of_front (List.prefix_append folder [name])) (Disk.checkText_front hfits.text)
    refine succeeds_replaceFile_iff_steps.mpr ⟨made, folder ++ [name], ?_, hfolder.checkDraft_eq hfits,
      exists_find_eq_ok hnames (isLinkFree_of_isMade hfree hmade) hfits.text hshortAll,
      hfolder.entryPlace?_eq hfits.isName hfits.text hfits.isTooLong_eq, ?_, (hmade.put_concat name _).symm⟩
    · rwa [Pathname.parent_ofRoot_concat]
    · unfold IsDirAt
      rw [hmade.get?_concat]
      exact hcan.notDir

end Writes

end EnvFill.Storage
