import EnvFill.Project.Ignored
import EnvFill.Proofs.Matching
import EnvFill.Proofs.ScannedFolder
import EnvFill.Proofs.WritesApart

/-!
# Disks that agree elsewhere

Two disks without links show the same but at certain places, where neither has a directory. A path that
leads to none of these places leads to the same thing on both disks, even if one of them is on its way: no
path goes on from there.
-/

namespace EnvFill.Storage

open Node

/-- The disks have no links, and show the same but at changed places, where neither has a directory. -/
structure AgreeBut (changed : Location → Prop) (disk other : Disk) : Prop where
  current : disk.current = other.current
  free : ∀ place, IsLinkFree place disk.top
  free_other : ∀ place, IsLinkFree place other.top
  notDir : ∀ place, changed place → ¬IsDirAt disk place ∧ ¬IsDirAt other place
  shown : ∀ place, ¬changed place → disk.shown place = other.shown place

def Avoids (changed : Location → Prop) (disk other : Disk) (path : Pathname) : Prop :=
  ∀ place, disk.locate? path = .ok place ∨ other.locate? path = .ok place → ¬changed place

variable {changed later : Location → Prop} {disk middle other : Disk} {place folder start : Location}
  {name : String} {path : Pathname} {bytes : List UInt8} {files : List (String × List UInt8)}

theorem isDirAt_iff_shown : IsDirAt disk place ↔ disk.shown place = some (.dir []) := by
  unfold IsDirAt Disk.shown
  cases disk.top.get? place with
  | none => simp
  | some node => cases node <;> simp [Node.bare]

/-- Where there is neither a directory nor a link there is a file or nothing. -/
theorem exists_content (hfree : ∀ place, IsLinkFree place disk.top) (hfile : ¬IsDirAt disk place) :
    ∃ content : Option (List UInt8), disk.top.get? place = content.map .file := by
  cases hget : disk.top.get? place with
  | none => exact ⟨none, rfl⟩
  | some node =>
    cases node with
    | file bytes => exact ⟨some bytes, rfl⟩
    | link target => exact absurd hget (hfree place place List.prefix_rfl target)
    | dir entries => exact absurd ⟨entries, hget⟩ hfile

namespace AgreeBut

theorem refl (hfree : ∀ place, IsLinkFree place disk.top) : AgreeBut (fun _ => False) disk disk :=
  ⟨rfl, hfree, hfree, fun _ hfalse => hfalse.elim, fun _ _ => rfl⟩

theorem isDirAt_iff (hagree : AgreeBut changed disk other) : IsDirAt disk place ↔ IsDirAt other place := by
  by_cases hplace : changed place
  · obtain ⟨hone, htwo⟩ := hagree.notDir place hplace
    exact iff_of_false hone htwo
  · rw [isDirAt_iff_shown, isDirAt_iff_shown, hagree.shown place hplace]

theorem trans (hfirst : AgreeBut changed disk middle) (hsecond : AgreeBut later middle other) :
    AgreeBut (fun place => changed place ∨ later place) disk other where
  current := hfirst.current.trans hsecond.current
  free := hfirst.free
  free_other := hsecond.free_other
  notDir place hplace := by
    have hmiddle : ¬IsDirAt middle place := by
      rcases hplace with hplace | hplace
      · exact (hfirst.notDir place hplace).2
      · exact (hsecond.notDir place hplace).1
    exact ⟨hfirst.isDirAt_iff.not.mpr hmiddle, hsecond.isDirAt_iff.not.mp hmiddle⟩
  shown place hplace := by
    rw [not_or] at hplace
    exact (hfirst.shown place hplace.1).trans (hsecond.shown place hplace.2)

theorem mono (hagree : AgreeBut changed disk other) (hlater : ∀ place, changed place → later place)
    (hnotDir : ∀ place, later place → ¬IsDirAt disk place) : AgreeBut later disk other where
  current := hagree.current
  free := hagree.free
  free_other := hagree.free_other
  notDir place hplace := ⟨hnotDir place hplace, hagree.isDirAt_iff.not.mp (hnotDir place hplace)⟩
  shown place hplace := hagree.shown place fun hchanged => hplace (hlater place hchanged)

end AgreeBut

theorem shown_put_file (hfolder : IsDirAt disk folder) :
    (disk.put (folder ++ [name]) (.file bytes)).shown (folder ++ [name]) = some (.file bytes) := by
  obtain ⟨entries, hget⟩ := hfolder
  have hroom : HasRoom (folder ++ [name]) disk.top := by
    rw [hasRoom_append, hget]
    exact ⟨hasRoom_of_get? hget, trivial⟩
  rw [Disk.shown, Disk.top_put, get?_put_self hroom]
  rfl

theorem agreeBut_put (hfree : ∀ place, IsLinkFree place disk.top) (hfolder : IsDirAt disk folder)
    (hfile : ¬IsDirAt disk (folder ++ [name])) (bytes : List UInt8) :
    AgreeBut (· = folder ++ [name]) disk (disk.put (folder ++ [name]) (.file bytes)) := by
  obtain ⟨content, hcontent⟩ := exists_content hfree hfile
  have hchanges := changesOnly_put_file bytes hcontent
  refine ⟨rfl, hfree, fun place => hchanges.isLinkFree (hfree place), ?_, ?_⟩
  · rintro _ rfl
    refine ⟨hfile, ?_⟩
    rw [isDirAt_iff_shown, shown_put_file hfolder]
    simp
  · intro place hplace
    by_contra hne
    rcases hchanges.shown place (Ne.symm hne) with heq | ⟨⟨hbefore, hproper⟩, hnone, -⟩
    · exact hplace heq
    -- What lies above the file is there already.
    · have habove : place <+: folder :=
        (List.prefix_concat_iff.mp hbefore).resolve_left hproper
      have hdir : IsDirAt disk place := by
        by_contra hmissing
        exact hfolder.not_isPrefix hmissing habove
      rw [isDirAt_iff_shown, hnone] at hdir
      cases hdir

theorem agreeBut_putFiles (hfree : ∀ place, IsLinkFree place disk.top) (hfolder : IsDirAt disk folder)
    (hfiles : ∀ file ∈ files, ¬IsDirAt disk (folder ++ [file.1])) :
    AgreeBut (fun place => ∃ file ∈ files, place = folder ++ [file.1]) disk
      (disk.putFiles folder files) := by
  induction files generalizing disk with
  | nil => exact (AgreeBut.refl hfree).mono (fun _ hfalse => hfalse.elim) (by simp)
  | cons file files ih =>
    obtain ⟨hfile, hrest⟩ := List.forall_mem_cons.mp hfiles
    have hfirst := agreeBut_put hfree hfolder hfile file.2
    have hlater := ih hfirst.free_other (hfirst.isDirAt_iff.mp hfolder)
      fun next hnext => hfirst.isDirAt_iff.not.mp (hrest next hnext)
    refine (hfirst.trans hlater).mono ?_ ?_
    · rintro place (rfl | ⟨next, hnext, rfl⟩)
      · exact ⟨file, List.mem_cons_self, rfl⟩
      · exact ⟨next, List.mem_cons_of_mem file hnext, rfl⟩
    · rintro place ⟨next, hnext, rfl⟩
      exact hfiles next hnext

/-- No path goes on from a file, or from where nothing is. -/
theorem locateFrom?_of_content {top : Node} {links : Nat} {step : String} {rest : List String}
    {content : Option (List UInt8)} (hdot : step ≠ ".") (hdots : step ≠ "..")
    (hshort : ¬isTooLong step = true) (hcontent : top.get? (start ++ [step]) = content.map .file) :
    locateFrom? top links start (step :: rest) = .ok (start ++ [step]) ∨
      ∃ error, locateFrom? top links start (step :: rest) = .error error ∧ error.isAbsence = true := by
  simp only [locateFrom?, if_neg hdot, if_neg hdots, if_neg hshort, hcontent]
  cases content with
  | none => exact .inr ⟨.missing, rfl, rfl⟩
  | some bytes =>
    cases rest with
    | nil => exact .inl rfl
    | cons next rest => exact .inr ⟨.notDirectory, rfl, rfl⟩

namespace AgreeBut

/-- The same file is written on both disks. -/
theorem put (hagree : AgreeBut changed disk other) (hfolder : IsDirAt disk folder)
    (hfile : ¬IsDirAt disk (folder ++ [name])) (bytes : List UInt8) :
    AgreeBut changed (disk.put (folder ++ [name]) (.file bytes))
      (other.put (folder ++ [name]) (.file bytes)) := by
  have hone := agreeBut_put hagree.free hfolder hfile bytes
  have htwo := agreeBut_put hagree.free_other (hagree.isDirAt_iff.mp hfolder)
    (hagree.isDirAt_iff.not.mp hfile) bytes
  refine ⟨hagree.current, hone.free_other, htwo.free_other, fun place hchanged => ?_,
    fun place hsame => ?_⟩
  · obtain ⟨hdisk, hother⟩ := hagree.notDir place hchanged
    exact ⟨hone.isDirAt_iff.not.mp hdisk, htwo.isDirAt_iff.not.mp hother⟩
  · by_cases heq : place = folder ++ [name]
    · subst heq
      rw [shown_put_file hfolder, shown_put_file (hagree.isDirAt_iff.mp hfolder)]
    · calc (disk.put (folder ++ [name]) (.file bytes)).shown place
          = disk.shown place := (hone.shown place heq).symm
        _ = other.shown place := hagree.shown place hsame
        _ = (other.put (folder ++ [name]) (.file bytes)).shown place := htwo.shown place heq

theorem same_node (hagree : AgreeBut changed disk other) (hplace : ¬changed place) :
    (disk.top.get? place = none ∧ other.top.get? place = none) ∨
      (∃ bytes, disk.top.get? place = some (.file bytes) ∧ other.top.get? place = some (.file bytes)) ∨
        ∃ entries below, disk.top.get? place = some (.dir entries) ∧
          other.top.get? place = some (.dir below) := by
  by_cases hdir : IsDirAt disk place
  · obtain ⟨below, hbelow⟩ := hagree.isDirAt_iff.mp hdir
    obtain ⟨entries, hentries⟩ := hdir
    exact .inr (.inr ⟨entries, below, hentries, hbelow⟩)
  · obtain ⟨content, hcontent⟩ := exists_content hagree.free hdir
    obtain ⟨twin, htwin⟩ := exists_content hagree.free_other (hagree.isDirAt_iff.not.mp hdir)
    have hshown := hagree.shown place hplace
    unfold Disk.shown at hshown
    rw [hcontent, htwin] at hshown
    cases content with
    | none =>
      cases twin with
      | none => exact .inl ⟨hcontent, htwin⟩
      | some bytes => cases hshown
    | some bytes =>
      cases twin with
      | none => cases hshown
      | some later =>
        obtain rfl : bytes = later := Node.file.inj (Option.some.inj hshown)
        exact .inr (.inl ⟨bytes, hcontent, htwin⟩)

/-- A path that leads to no changed place leads to the same place of both disks, or is one on which nothing
lies. -/
theorem locateFrom? (hagree : AgreeBut changed disk other) {links : Nat} {steps : List String}
    (hone : ∀ place, Storage.locateFrom? disk.top links start steps = .ok place → ¬changed place)
    (htwo : ∀ place, Storage.locateFrom? other.top links start steps = .ok place → ¬changed place) :
    Storage.locateFrom? disk.top links start steps = Storage.locateFrom? other.top links start steps ∨
      ∃ error fault, Storage.locateFrom? disk.top links start steps = .error error ∧
        Storage.locateFrom? other.top links start steps = .error fault ∧
          error.isAbsence = true ∧ fault.isAbsence = true := by
  induction steps generalizing start with
  | nil => exact .inl (by rw [Storage.locateFrom?, Storage.locateFrom?])
  | cons step rest ih =>
    by_cases hdot : step = "."
    · simp only [Storage.locateFrom?, if_pos hdot] at hone htwo ⊢
      exact ih hone htwo
    by_cases hdots : step = ".."
    · simp only [Storage.locateFrom?, if_neg hdot, if_pos hdots] at hone htwo ⊢
      exact ih hone htwo
    by_cases hlong : isTooLong step = true
    · simp only [Storage.locateFrom?, if_neg hdot, if_neg hdots, if_pos hlong, true_or]
    -- No path goes on from a changed place, and this one does not end there.
    by_cases hhere : changed (start ++ [step])
    · obtain ⟨hdisk, hother⟩ := hagree.notDir _ hhere
      obtain ⟨content, hcontent⟩ := exists_content hagree.free hdisk
      obtain ⟨twin, htwin⟩ := exists_content hagree.free_other hother
      rcases locateFrom?_of_content hdot hdots hlong hcontent with hfound | ⟨error, herror, habsent⟩
      · exact absurd hhere (hone _ hfound)
      rcases locateFrom?_of_content hdot hdots hlong htwin with hfound | ⟨fault, hfault, hmissing⟩
      · exact absurd hhere (htwo _ hfound)
      exact .inr ⟨error, fault, herror, hfault, habsent, hmissing⟩
    · simp only [Storage.locateFrom?, if_neg hdot, if_neg hdots, if_neg hlong] at hone htwo ⊢
      rcases hagree.same_node hhere with hnone | ⟨bytes, hfile⟩ | ⟨entries, below, hdir⟩
      · simp only [hnone.1, hnone.2, true_or]
      · simp only [hfile.1, hfile.2, true_or]
      · simp only [hdir.1, hdir.2] at hone htwo ⊢
        exact ih hone htwo

theorem findPlace_eq (hagree : AgreeBut changed disk other) (hpath : Avoids changed disk other path) :
    disk.findPlace path = other.findPlace path := by
  have hstart : disk.startOf path = other.startOf path := by
    unfold Disk.startOf
    rw [hagree.current]
  cases htext : Disk.checkText path with
  | error error => simp [Disk.findPlace, Disk.locate?, htext, bind, Except.bind]
  | ok =>
    have hlocate : ∀ disk : Disk, disk.locate? path =
        Storage.locateFrom? disk.top maxLinks (disk.startOf path) path.parts := by
      intro disk
      unfold Disk.locate?
      rw [htext]
      rfl
    have hone := fun place hplace => hpath place (.inl hplace)
    have htwo := fun place hplace => hpath place (.inr hplace)
    simp only [Disk.findPlace, hlocate, ← hstart] at hone htwo ⊢
    rcases hagree.locateFrom? hone htwo with heq | ⟨error, fault, herror, hfault, habsent, hmissing⟩
    · rw [heq]
    · simp only [herror, hfault, habsent, hmissing, if_true]

theorem find (hagree : AgreeBut changed disk other) (hpath : Avoids changed disk other path) :
    Matching (fun one two => one.map Node.bare = two.map Node.bare) (disk.find path)
      (other.find path) := by
  unfold Disk.find
  rw [← hagree.findPlace_eq hpath]
  cases hfound : disk.findPlace path with
  | error fault => exact .error fault
  | ok found =>
    cases found with
    | none => exact .ok rfl
    | some place =>
      have hplace := hpath place (.inl (Disk.findPlace_eq_some_iff.mp hfound))
      exact .ok (hagree.shown place hplace)

theorem bytes?_eq (hagree : AgreeBut changed disk other) (hpath : Avoids changed disk other path) :
    disk.bytes? path = other.bytes? path := by
  refine matching_eq_iff.mp ((hagree.find hpath).map fun one two hsame => ?_)
  have hbare : ∀ node : Option Node, node.bind Node.bytes? = (node.map Node.bare).bind Node.bytes? := by
    rintro (_ | _ | _ | _) <;> rfl
  rw [hbare one, hbare two, hsame]

theorem avoids_ofRoot (hagree : AgreeBut changed disk other) (hnames : ∀ name ∈ place, IsName name)
    (hplace : ¬changed place) : Avoids changed disk other (.ofRoot place) := by
  rintro found (hfound | hfound)
  · rwa [((Disk.locate?_ofRoot_eq_ok_iff hnames (hagree.free place)).mp hfound).2.1]
  · rwa [((Disk.locate?_ofRoot_eq_ok_iff hnames (hagree.free_other place)).mp hfound).2.1]

theorem resolve_ofRoot (hagree : AgreeBut changed disk other) (hnames : ∀ name ∈ place, IsName name) :
    disk.resolve (.ofRoot place) = other.resolve (.ofRoot place) := by
  cases hzero : (Pathname.ofRoot place).hasZero with
  | false =>
    rw [Disk.resolve_ofRoot hnames (hagree.free place) hzero,
      Disk.resolve_ofRoot hnames (hagree.free_other place) hzero]
  | true => rw [Disk.resolve, Disk.resolve, if_pos hzero, if_pos hzero]

end AgreeBut

/-- A path that ends in a name leads to a place of that name. -/
theorem last_of_locateFrom? {top : Node} {links : Nat} {steps : List String}
    (hfree : ∀ place, IsLinkFree place top) (hname : IsName name)
    (hlocate : locateFrom? top links start (steps ++ [name]) = .ok place) :
    place.getLast? = some name := by
  induction steps generalizing start with
  | nil =>
    have hplace := (locateFrom?_eq_ok_iff (List.forall_mem_singleton.mpr hname) (hfree _)).mp hlocate
    rw [hplace.1, List.getLast?_concat]
  | cons step rest ih =>
    rw [List.cons_append, locateFrom?] at hlocate
    split at hlocate
    · exact ih hlocate
    split at hlocate
    · exact ih hlocate
    split at hlocate
    · cases hlocate
    split at hlocate
    · cases hlocate
    · exact ih hlocate
    · rw [if_neg (by simp)] at hlocate
      cases hlocate
    · rename_i target hlink
      exact absurd hlink (hfree _ _ List.prefix_rfl target)

end EnvFill.Storage

namespace EnvFill.Project

open Storage AgreeBut EnvFile Fill

variable {changed : Location → Prop} {disk other : Disk} {place folder project : Location}
  {file : Pathname}

theorem readSettings_eq (hagree : AgreeBut changed disk other) (hnames : ∀ name ∈ place, IsName name)
    (hplace : ¬changed place) :
    readSettings disk (.ofRoot place) = readSettings other (.ofRoot place) := by
  unfold readSettings
  rw [hagree.bytes?_eq (hagree.avoids_ofRoot hnames hplace)]

theorem contentAt_eq (hagree : AgreeBut changed disk other) (hnames : ∀ name ∈ place, IsName name)
    (hplace : ¬changed place) : contentAt disk (.ofRoot place) = contentAt other (.ofRoot place) := by
  have hfind := hagree.find (hagree.avoids_ofRoot hnames hplace)
  refine matching_eq_iff.mp (hfind.followed.bind fun one two hsame => matching_eq_iff.mpr ?_)
  rcases one with _ | _ | _ | _ <;> rcases two with _ | _ | _ | _ <;> cases hsame <;> rfl

theorem isIgnored?_eq (hagree : AgreeBut changed disk other)
    (hignore : ∀ place, changed place → place.getLast? ≠ some ".gitignore") (file : Pathname) :
    isIgnored? disk (.ofRoot project) file = isIgnored? other (.ofRoot project) file := by
  have hname : IsName ".gitignore" := by decide
  have hpath : (Pathname.ofRoot project).join (.ofString ".gitignore") =
      .ofRoot (project ++ [".gitignore"]) := by
    have hparsed : Pathname.ofString ".gitignore" = ⟨.current, [".gitignore"]⟩ := by decide
    rw [hparsed]
    rfl
  have havoids : Avoids changed disk other (.ofRoot (project ++ [".gitignore"])) := by
    rintro place (hplace | hplace) hchanged
    · have hfrom := (Disk.locate?_eq_ok_iff.mp hplace).2
      exact hignore place hchanged (last_of_locateFrom? hagree.free hname hfrom)
    · have hfrom := (Disk.locate?_eq_ok_iff.mp hplace).2
      exact hignore place hchanged (last_of_locateFrom? hagree.free_other hname hfrom)
  unfold isIgnored?
  rw [hpath, hagree.bytes?_eq havoids]

theorem scanRoot_of_agree (hagree : AgreeBut changed disk other) (hnames : ∀ name ∈ folder, IsName name)
    (hfolder : IsDirAt disk folder) :
    Matching (fun one two => one.1 = folder ∧ two.1 = folder) (scanRoot disk (.ofRoot folder))
      (scanRoot other (.ofRoot folder)) := by
  have hplace : ¬changed folder := fun hchanged => (hagree.notDir folder hchanged).1 hfolder
  unfold scanRoot
  rw [← hagree.resolve_ofRoot hnames]
  cases hresolve : disk.resolve (.ofRoot folder) with
  | error fault => exact .error _
  | ok place =>
    obtain rfl := Disk.eq_of_resolve_ofRoot hnames (hagree.free folder) hresolve
    change Matching _ (followed (disk.findPlace (.ofRoot place)) >>= _)
      (followed (other.findPlace (.ofRoot place)) >>= _)
    rw [← hagree.findPlace_eq (hagree.avoids_ofRoot hnames hplace)]
    cases hfound : disk.findPlace (.ofRoot place) with
    | error fault => exact .error _
    | ok found =>
      cases found with
      | none => exact .error _
      | some found =>
        have hlocate := Disk.findPlace_eq_some_iff.mp hfound
        obtain ⟨-, rfl, -⟩ := (Disk.locate?_ofRoot_eq_ok_iff hnames (hagree.free place)).mp hlocate
        obtain ⟨below, hbelow⟩ := hagree.isDirAt_iff.mp hfolder
        obtain ⟨entries, hentries⟩ := hfolder
        simp only [followed, Except.mapError, bind, Except.bind, hentries, hbelow]
        exact .ok ⟨rfl, rfl⟩

theorem scanSettings_of_agree (hagree : AgreeBut changed disk other)
    (hnames : ∀ name ∈ folder, IsName name) (hfolder : IsDirAt disk folder)
    (hfiles : ∀ file ∈ Name.sourceFiles, ¬changed (folder ++ [file])) :
    scanSettings disk (.ofRoot folder) = scanSettings other (.ofRoot folder) := by
  refine matching_eq_iff.mp ((scanRoot_of_agree hagree hnames hfolder).bind ?_)
  rintro ⟨place, node⟩ ⟨twin, later⟩ ⟨hplace, htwin⟩
  dsimp only at hplace htwin ⊢
  rw [hplace, htwin]
  refine (Matching.mapM fun file hfile => matching_eq_iff.mpr ?_).bind fun one two hsame => ?_
  · have hname := (isName_of_mem_sourceFiles file hfile).1
    unfold variablesOfFile
    rw [hagree.bytes?_eq (hagree.avoids_ofRoot (forall_isName_concat hnames hname) (hfiles file hfile))]
  · rw [List.forall₂_eq_eq_eq] at hsame
    rw [hsame]
    exact .ok rfl

end EnvFill.Project
