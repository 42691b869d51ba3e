import EnvFill.Proofs.Folders

/-!
# What changes of a disk leave alone

A write to a place changes the file there, and makes the directories above it that are missing. If it
fails it has made no more than such directories.
-/

namespace EnvFill.Storage

open Node Edit

def Node.bare : Node → Node
  | .dir _ => .dir []
  | node => node

def Disk.shown (disk : Disk) (place : Location) : Option Node := (disk.top.get? place).map Node.bare

def IsAbove (front place : Location) : Prop := front <+: place ∧ front ≠ place

/-- The links are the same on both disks, and what is seen differs at places in `written` only, but for
directories in `made` that have been added. -/
structure ChangesOnly (written made : Location → Prop) (disk after : Disk) : Prop where
  links : ∀ place target, after.top.get? place = some (.link target) ↔
    disk.top.get? place = some (.link target)
  shown : ∀ place, after.shown place ≠ disk.shown place →
    written place ∨ made place ∧ disk.shown place = none ∧ after.shown place = some (.dir [])

section Changes

variable {written made : Location → Prop} {disk middle after : Disk} {place other : Location}
  {new : Node}

theorem ChangesOnly.refl (written made : Location → Prop) (disk : Disk) :
    ChangesOnly written made disk disk :=
  ⟨fun _ _ => Iff.rfl, fun _ hne => absurd rfl hne⟩

theorem ChangesOnly.isLinkFree (hchanges : ChangesOnly written made disk after)
    (hfree : IsLinkFree place disk.top) : IsLinkFree place after.top :=
  fun front hfront target hlink => hfree front hfront target ((hchanges.links front target).mp hlink)

theorem shown_nil_ne_none (disk : Disk) : disk.shown [] ≠ none := by
  simp [Disk.shown, get?]

theorem ChangesOnly.mono {written' made' : Location → Prop}
    (hchanges : ChangesOnly written made disk after) (hwritten : ∀ place, written place → written' place)
    (hmade : ∀ place, place ≠ [] → made place → made' place) :
    ChangesOnly written' made' disk after := by
  refine ⟨hchanges.links, fun place hne => ?_⟩
  rcases hchanges.shown place hne with hplace | ⟨hplace, hnone, hdir⟩
  · exact .inl (hwritten place hplace)
  · have hbelow : place ≠ [] := fun hnil => shown_nil_ne_none disk (hnil ▸ hnone)
    exact .inr ⟨hmade place hbelow hplace, hnone, hdir⟩

theorem ChangesOnly.trans (hfirst : ChangesOnly written made disk middle)
    (hsecond : ChangesOnly written made middle after) : ChangesOnly written made disk after := by
  refine ⟨fun place target => (hsecond.links place target).trans (hfirst.links place target),
    fun place hne => ?_⟩
  by_cases hsame : middle.shown place = disk.shown place
  · rw [← hsame] at hne ⊢
    exact hsecond.shown place hne
  · rcases hfirst.shown place hsame with hwritten | ⟨hmade, hnone, hdir⟩
    · exact .inl hwritten
    by_cases hlater : after.shown place = middle.shown place
    · exact .inr ⟨hmade, hnone, hlater.trans hdir⟩
    · refine (hsecond.shown place hlater).imp_right ?_
      rintro ⟨-, hmiss, -⟩
      rw [hdir] at hmiss
      cases hmiss

/-- Besides its own place, what is put changes the places above at most. -/
theorem shown_put_of_ne (hnew : ∀ below, below ≠ [] → new.get? below = none)
    (hold : ∀ below, below ≠ [] → disk.top.get? (place ++ below) = none) (hne : other ≠ place) :
    (disk.put place new).shown other = disk.shown other ∨
      IsAbove other place ∧ disk.shown other = none ∧
        (disk.put place new).shown other = some (.dir []) := by
  unfold Disk.shown
  rw [Disk.top_put]
  by_cases hroom : HasRoom place disk.top
  swap
  · rw [put_of_not_hasRoom hroom]
    exact .inl rfl
  by_cases hbelow : place <+: other
  · obtain ⟨below, rfl⟩ := hbelow
    have hmore : below ≠ [] := fun hnil => hne (by rw [hnil, List.append_nil])
    rw [hold below hmore, get?_append, get?_put_self hroom, Option.bind_some, hnew below hmore]
    exact .inl rfl
  by_cases habove : other <+: place
  · obtain ⟨back, rfl⟩ := habove
    have hback : back ≠ [] := fun hnil => hne (by rw [hnil, List.append_nil])
    obtain ⟨entries, hdir⟩ :
        ∃ entries, (Node.put new (other ++ back) disk.top).get? other = some (.dir entries) :=
      exists_dir_get?_put hback hroom
    rw [hdir]
    cases hget : disk.top.get? other with
    | none => exact .inr ⟨⟨List.prefix_append _ _, hne⟩, rfl, rfl⟩
    | some old =>
      obtain ⟨_, rfl⟩ := exists_dir_of_hasRoom hback hroom hget
      exact .inl rfl
  · rw [get?_put_of_apart hbelow habove]
    exact .inl rfl

theorem get?_file_of_ne_nil (bytes : List UInt8) {below : Location} (hbelow : below ≠ []) :
    (Node.file bytes).get? below = none := by
  obtain ⟨name, rest, rfl⟩ := List.exists_cons_of_ne_nil hbelow
  rfl

/-- A file put in place of another, or where nothing was. -/
theorem changesOnly_put_file {content : Option (List UInt8)} (bytes : List UInt8)
    (hcontent : disk.top.get? place = content.map .file) :
    ChangesOnly (· = place) (IsAbove · place) disk (disk.put place (.file bytes)) := by
  refine ⟨get?_put_eq_link_iff (get?_file_ne_link bytes) (get?_append_ne_link hcontent),
    fun other hother => ?_⟩
  by_cases hplace : other = place
  · exact .inl hplace
  have hold : ∀ below, below ≠ [] → disk.top.get? (place ++ below) = none := by
    intro below hbelow
    rw [get?_append, hcontent]
    cases content with
    | none => rfl
    | some old => exact get?_file_of_ne_nil old hbelow
  have hput := shown_put_of_ne (fun _ => get?_file_of_ne_nil bytes) hold hplace
  exact .inr (hput.resolve_left hother)

/-- A directory put where nothing was. -/
theorem changesOnly_put_dir (hnone : disk.top.get? place = none) :
    ChangesOnly (fun _ => False) (· <+: place) disk (disk.put place (.dir [])) := by
  have hbelow : ∀ below, disk.top.get? (place ++ below) = none := by
    intro below
    rw [get?_append, hnone]
    rfl
  have hempty : ∀ below : Location, below ≠ [] → (Node.dir []).get? below = none := by
    intro below hmore
    obtain ⟨name, rest, rfl⟩ := List.exists_cons_of_ne_nil hmore
    rfl
  refine ⟨get?_put_eq_link_iff get?_emptyDir_ne_link (fun below target => by simp [hbelow]),
    fun other hother => .inr ?_⟩
  by_cases hplace : other = place
  · subst hplace
    have hmissing : disk.shown other = none := by rw [Disk.shown, hnone, Option.map_none]
    refine ⟨List.prefix_rfl, hmissing, ?_⟩
    by_cases hroom : HasRoom other disk.top
    · rw [Disk.shown, Disk.top_put, get?_put_self hroom]
      rfl
    · rw [Disk.shown, Disk.shown, Disk.top_put, put_of_not_hasRoom hroom] at hother
      exact absurd rfl hother
  · have hput := shown_put_of_ne hempty (fun below _ => hbelow below) hplace
    obtain ⟨habove, hmissing, hdir⟩ := hput.resolve_left hother
    exact ⟨habove.1, hmissing, hdir⟩

end Changes

/-! ### Writing a file -/

section Write

variable {disk after : Disk} {place : Location} {bytes : List UInt8} {error : DiskError}

def MayHaveMade (place : Location) (disk after : Disk) : Prop :=
  after = disk ∨ ∃ front, front <+: place ∧ disk.top.get? front = none ∧ after = disk.put front (.dir [])

theorem mayHaveMade_of_isMade {front : Location} (hfront : front <+: place)
    (hmade : IsMade front disk after) : MayHaveMade place disk after := by
  rcases hmade with ⟨-, rfl⟩ | ⟨hnone, rfl⟩
  · exact .inl rfl
  · exact .inr ⟨front, hfront, hnone, rfl⟩

theorem MayHaveMade.mono {front : Location} (hmade : MayHaveMade front disk after)
    (hfront : front <+: place) : MayHaveMade place disk after := by
  rcases hmade with rfl | ⟨other, hother, hnone, rfl⟩
  · exact .inl rfl
  · exact .inr ⟨other, hother.trans hfront, hnone, rfl⟩

theorem MayHaveMade.changesOnly (hmade : MayHaveMade place disk after) :
    ChangesOnly (fun _ => False) (· <+: place) disk after := by
  rcases hmade with rfl | ⟨front, hfront, hnone, rfl⟩
  · exact .refl _ _ _
  · exact (changesOnly_put_dir hnone).mono (fun _ => id) fun _ _ hother => hother.trans hfront

/-- Where something other than a directory is in the way, nothing is made. -/
theorem MayHaveMade.eq_of_not_hasRoom (hmade : MayHaveMade place disk after)
    (hroom : ¬HasRoom place disk.top) : after = disk := by
  rcases hmade with rfl | ⟨front, ⟨back, rfl⟩, hnone, rfl⟩
  · rfl
  · have hfront : ¬HasRoom front disk.top := by
      intro hfront
      refine hroom (hasRoom_append.mpr ⟨hfront, ?_⟩)
      rw [hnone]
      exact hasRoom_emptyDir back
    rw [Disk.put, put_of_not_hasRoom hfront]

/-- Directories that were made on the way stay. -/
theorem mayHaveMade_of_fails_ensureDirectories (hnames : ∀ name ∈ place, IsName name)
    (hfree : IsLinkFree place disk.top)
    (hensure : Fails (ensureDirectories (.ofRoot place)) disk error after) :
    MayHaveMade place disk after := by
  induction place using List.reverseRecOn generalizing error after with
  | nil =>
    rw [ensureDirectories] at hensure
    obtain ⟨_, _, hmake, hhandle⟩ := fails_tryCatch_iff.mp hensure
    obtain rfl := (fails_ensureDirectory hmake).symm
    rw [dif_neg (by simp [Pathname.ofRoot])] at hhandle
    exact .inl (fails_throw_iff.mp hhandle).2.symm
  | append_singleton front name ih =>
    rw [ensureDirectories] at hensure
    obtain ⟨_, _, hmake, hhandle⟩ := fails_tryCatch_iff.mp hensure
    obtain rfl := (fails_ensureDirectory hmake).symm
    split at hhandle
    · have hnamesFront : ∀ other ∈ front, IsName other :=
        fun other hother => hnames other (List.mem_append_left _ hother)
      have hfreeFront := hfree.of_front (List.prefix_append front [name])
      have hfront : front <+: front ++ [name] := List.prefix_append _ _
      rw [Pathname.parent_ofRoot_concat] at hhandle
      rcases fails_bind_iff.mp hhandle with hfirst | ⟨_, middle, hfirst, hlast⟩
      · exact (ih hnamesFront hfreeFront hfirst).mono hfront
      · obtain rfl := fails_ensureDirectory hlast
        exact mayHaveMade_of_isMade hfront (succeeds_ensureDirectories hnamesFront hfreeFront hfirst)
    · exact .inl (fails_throw_iff.mp hhandle).2.symm

theorem isAbove_of_prefix_dropLast {front : Location} (hne : front ≠ [])
    (hfront : front <+: place.dropLast) : IsAbove front place := by
  refine ⟨hfront.trans (List.dropLast_prefix place), ?_⟩
  rintro rfl
  have hlength := hfront.length_le
  have hpos := List.length_pos_iff.mpr hne
  rw [List.length_dropLast] at hlength
  omega

theorem mayHaveMade_of_fails_replaceFile (hnames : ∀ name ∈ place, IsName name)
    (hfree : IsLinkFree place disk.top)
    (hwrite : Fails (replaceFile (.ofRoot place) bytes) disk error after) :
    MayHaveMade place.dropLast disk after := by
  have hfront : place.dropLast <+: place := List.dropLast_prefix place
  have hnamesFront : ∀ name ∈ place.dropLast, IsName name :=
    fun name hname => hnames name (hfront.subset hname)
  have hfreeFront := hfree.of_front hfront
  have hparent : Pathname.parent (.ofRoot place) = .ofRoot place.dropLast := rfl
  have hsteps := fails_replaceFile_iff_steps.mp hwrite
  rw [hparent] at hsteps
  rcases hsteps with hmake | ⟨hmake, -⟩
  · exact mayHaveMade_of_fails_ensureDirectories hnamesFront hfreeFront hmake
  · exact mayHaveMade_of_isMade List.prefix_rfl
      (succeeds_ensureDirectories hnamesFront hfreeFront hmake)

theorem changesOnly_of_fails_replaceFile (hnames : ∀ name ∈ place, IsName name)
    (hfree : IsLinkFree place disk.top)
    (hwrite : Fails (replaceFile (.ofRoot place) bytes) disk error after) :
    ChangesOnly (fun _ => False) (IsAbove · place) disk after :=
  (mayHaveMade_of_fails_replaceFile hnames hfree hwrite).changesOnly.mono (fun _ => id)
    fun _ => isAbove_of_prefix_dropLast

end Write

end EnvFill.Storage

namespace EnvFill.Project

open Storage EnvFile Node

variable {disk after : Disk} {place : Location} {content : Option (List UInt8)}
  {entries : Entries} {keys : List String} {count : Nat} {error : Error}

/-- A place with a content has a file or nothing. -/
theorem get?_of_contentAt (hnames : ∀ name ∈ place, IsName name) (hfree : IsLinkFree place disk.top)
    (htext : Disk.checkText (.ofRoot place) = .ok ())
    (hread : contentAt disk (.ofRoot place) = .ok content) :
    disk.top.get? place = content.map .file := by
  unfold contentAt at hread
  cases hfind : followed (disk.find (.ofRoot place)) with
  | error error => simp [hfind, bind, Except.bind] at hread
  | ok node =>
    have hnode := Disk.find_ofRoot hnames hfree (followed_eq_ok_iff.mp hfind) htext
    rw [hfind] at hread
    cases node with
    | none =>
      obtain rfl := Except.ok.inj hread
      exact hnode.symm
    | some node =>
      cases node with
      | file bytes =>
        obtain rfl := Except.ok.inj hread
        exact hnode.symm
      | dir entries => cases hread
      | link target => exact absurd hnode.symm (hfree place List.prefix_rfl target)

theorem changesOnly_of_succeeds_writeWhole {bytes : List UInt8} (hnames : ∀ name ∈ place, IsName name)
    (hfree : IsLinkFree place disk.top) (hread : contentAt disk (.ofRoot place) = .ok content)
    (hwrite : Succeeds (writeWhole (.ofRoot place) bytes) disk () after) :
    ChangesOnly (· = place) (IsAbove · place) disk after := by
  obtain ⟨hwritable, rfl⟩ := succeeds_replaceFile hnames hfree (succeeds_writeWhole_iff.mp hwrite)
  exact changesOnly_put_file bytes (get?_of_contentAt hnames hfree hwritable.text hread)

theorem changesOnly_of_fails_writeWhole {bytes : List UInt8} (hnames : ∀ name ∈ place, IsName name)
    (hfree : IsLinkFree place disk.top)
    (hwrite : Fails (writeWhole (.ofRoot place) bytes) disk error after) :
    ChangesOnly (fun _ => False) (IsAbove · place) disk after ∧ error ≠ .endOfInput := by
  obtain ⟨cause, hfails, rfl⟩ := Edit.fails_mapError_iff.mp hwrite
  refine ⟨changesOnly_of_fails_replaceFile hnames hfree hfails, ?_⟩
  cases cause <;> exact Error.noConfusion

/-- A write that succeeds changes its file. -/
theorem changesOnly_of_succeeds_writeSettings (hnames : ∀ name ∈ place, IsName name)
    (hfree : IsLinkFree place disk.top)
    (hwrite : Succeeds (writeSettings (.ofRoot place) entries) disk count after) :
    ChangesOnly (· = place) (IsAbove · place) disk after := by
  simp only [writeSettings, succeeds_bind_iff, Edit.succeeds_look_iff, succeeds_pure_iff] at hwrite
  obtain ⟨found, _, ⟨hfound, rfl⟩, read, _, ⟨hread, rfl⟩, _, _, hwhole, -, rfl⟩ := hwrite
  obtain rfl := Disk.eq_of_resolve_ofRoot hnames hfree (followed_eq_ok_iff.mp hfound)
  exact changesOnly_of_succeeds_writeWhole hnames hfree hread hwhole

theorem ne_endOfInput_of_followed {α : Type} {result : Except DiskError α}
    (herror : followed result = .error error) : error ≠ .endOfInput := by
  rintro rfl
  cases result <;> cases herror

theorem ne_endOfInput_of_contentAt {file : Pathname} (herror : contentAt disk file = .error error) :
    error ≠ .endOfInput := by
  rintro rfl
  unfold contentAt at herror
  cases hfind : followed (disk.find file) with
  | error other =>
    rw [hfind] at herror
    exact ne_endOfInput_of_followed hfind (Except.error.inj herror)
  | ok node =>
    rw [hfind] at herror
    cases node with
    | none => cases herror
    | some node => cases node <;> cases herror

/-- A write that fails makes directories above its file at most, and fails for a reason of its own. -/
theorem changesOnly_of_fails_writeSettings (hnames : ∀ name ∈ place, IsName name)
    (hfree : IsLinkFree place disk.top)
    (hwrite : Fails (writeSettings (.ofRoot place) entries) disk error after) :
    ChangesOnly (fun _ => False) (IsAbove · place) disk after ∧ error ≠ .endOfInput := by
  simp only [writeSettings, fails_bind_iff, Edit.succeeds_look_iff, Edit.fails_look_iff,
    not_fails_pure, and_false, exists_false, or_false] at hwrite
  rcases hwrite with ⟨herror, rfl⟩ | ⟨found, _, ⟨hfound, rfl⟩, ⟨herror, rfl⟩ |
    ⟨read, _, ⟨hread, rfl⟩, hwhole⟩⟩
  · exact ⟨.refl _ _ _, ne_endOfInput_of_followed herror⟩
  · exact ⟨.refl _ _ _, ne_endOfInput_of_contentAt herror⟩
  · obtain rfl := Disk.eq_of_resolve_ofRoot hnames hfree (followed_eq_ok_iff.mp hfound)
    exact changesOnly_of_fails_writeWhole hnames hfree hwhole

/-- However it ends, adding keys to a template changes no other file. -/
theorem changesOnly_syncTemplate (hnames : ∀ name ∈ place, IsName name)
    (hfree : IsLinkFree place disk.top) (keys : List String) :
    ChangesOnly (· = place) (IsAbove · place) disk
      (outcome (syncTemplate (.ofRoot place) keys) disk).2 := by
  rcases succeeds_or_fails (syncTemplate (.ofRoot place) keys) disk with
    ⟨count, after, hsync⟩ | ⟨error, after, hsync⟩
  · rw [hsync]
    simp only [syncTemplate, succeeds_bind_iff, Edit.succeeds_look_iff] at hsync
    obtain ⟨found, _, ⟨hfound, rfl⟩, read, _, ⟨hread, rfl⟩, hadd⟩ := hsync
    obtain rfl := Disk.eq_of_resolve_ofRoot hnames hfree (followed_eq_ok_iff.mp hfound)
    split at hadd
    · rw [← (succeeds_pure_iff.mp hadd).2]
      exact .refl _ _ _
    · obtain ⟨_, _, hwhole, hpure⟩ := succeeds_bind_iff.mp hadd
      obtain ⟨-, rfl⟩ := succeeds_pure_iff.mp hpure
      exact changesOnly_of_succeeds_writeWhole hnames hfree hread hwhole
  · rw [hsync]
    simp only [syncTemplate, fails_bind_iff, Edit.succeeds_look_iff, Edit.fails_look_iff] at hsync
    rcases hsync with ⟨-, rfl⟩ | ⟨found, _, ⟨hfound, rfl⟩, ⟨-, rfl⟩ | ⟨read, _, ⟨hread, rfl⟩, hadd⟩⟩
    · exact .refl _ _ _
    · exact .refl _ _ _
    · obtain rfl := Disk.eq_of_resolve_ofRoot hnames hfree (followed_eq_ok_iff.mp hfound)
      split at hadd
      · exact absurd hadd not_fails_pure
      · simp only [fails_bind_iff, not_fails_pure, and_false, exists_false, or_false] at hadd
        exact (changesOnly_of_fails_writeWhole hnames hfree hadd).1.mono
          (fun _ hfalse => hfalse.elim) fun _ _ => id

end EnvFill.Project
