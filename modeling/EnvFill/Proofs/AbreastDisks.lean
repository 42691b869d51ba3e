import EnvFill.Proofs.AgreeingDisks
import EnvFill.Proofs.FolderWrites
import EnvFill.Proofs.TwinRuns

/-!
# Writes on two disks abreast

Files of a folder are written on two disks that agree but for files in another folder. Each write does the
same on both: it succeeds on both or fails on both for the same reason, so that in the end the same files
have been written in the same order.
-/

namespace EnvFill.Storage

open Node Edit

/-- From disks that agree but for changed places beside the folder, the same files were written in the
folder on both. -/
structure Abreast (changed : Location → Prop) (folder : Location) (start twin disk other : Disk) :
    Prop where
  agree : AgreeBut changed disk other
  apart : ∀ name, ¬changed (folder ++ [name])
  ignore : ∀ place, changed place → place.getLast? ≠ some ".gitignore"
  free : ∀ place, IsLinkFree place start.top
  dir : IsDirAt start folder
  written : ∃ files : List (String × List UInt8),
    (∀ file ∈ files, file.1 ≠ ".gitignore" ∧ ¬IsDirAt start (folder ++ [file.1])) ∧
      disk = start.putFiles folder files ∧ other = twin.putFiles folder files

variable {changed : Location → Prop} {folder : Location} {start twin disk other : Disk} {name : String}
  {bytes : List UInt8}

namespace Abreast

theorem isDirAt_iff (habreast : Abreast changed folder start twin disk other) {place : Location} :
    IsDirAt start place ↔ IsDirAt disk place := by
  obtain ⟨files, hfiles, rfl, -⟩ := habreast.written
  exact (agreeBut_putFiles habreast.free habreast.dir fun file hfile => (hfiles file hfile).2).isDirAt_iff

theorem isDirAt (habreast : Abreast changed folder start twin disk other) : IsDirAt disk folder :=
  habreast.isDirAt_iff.mp habreast.dir

theorem put (habreast : Abreast changed folder start twin disk other) (hname : name ≠ ".gitignore")
    (hfile : ¬IsDirAt disk (folder ++ [name])) (bytes : List UInt8) :
    Abreast changed folder start twin (disk.put (folder ++ [name]) (.file bytes))
      (other.put (folder ++ [name]) (.file bytes)) := by
  refine ⟨habreast.agree.put habreast.isDirAt hfile bytes, habreast.apart, habreast.ignore,
    habreast.free, habreast.dir, ?_⟩
  obtain ⟨files, hfiles, hdisk, hother⟩ := habreast.written
  refine ⟨files ++ [(name, bytes)], ?_, ?_, ?_⟩
  · have hlast := habreast.isDirAt_iff.not.mpr hfile
    exact List.forall_mem_append.mpr ⟨hfiles, List.forall_mem_singleton.mpr ⟨hname, hlast⟩⟩
  · rw [Disk.putFiles_concat, hdisk]
  · rw [Disk.putFiles_concat, hother]

end Abreast

theorem carries_putFile (hname : name ≠ ".gitignore") (bytes : List UInt8) :
    Carries (Abreast changed folder start twin) (Abreast changed folder start twin) (do
        if ((← get).top.get? (folder ++ [name])).any Node.isDir then throw .isDirectory
        putAt (folder ++ [name]) (.file bytes) : Edit DiskError Unit) := by
  intro disk other habreast
  rw [outcome_putUnless (·.any Node.isDir), outcome_putUnless (·.any Node.isDir)]
  by_cases hdir : IsDirAt disk (folder ++ [name])
  · rw [if_pos (any_isDir_iff.mpr hdir), if_pos (any_isDir_iff.mpr (habreast.agree.isDirAt_iff.mp hdir))]
    exact ⟨rfl, habreast⟩
  · have hother := habreast.agree.isDirAt_iff.not.mp hdir
    rw [if_neg (any_isDir_iff.not.mpr hdir), if_neg (any_isDir_iff.not.mpr hother)]
    exact ⟨rfl, habreast.put hname hdir bytes⟩

section Write

variable (hnames : ∀ other ∈ folder, IsName other) (htext : Disk.checkText (.ofRoot folder) = .ok ())
  (hshort : ∀ other ∈ folder, isTooLong other = false)

include hnames htext hshort

theorem Abreast.isDirectory (habreast : Abreast changed folder start twin disk other) :
    (∃ entries, IsDirectory disk folder entries) ∧ ∃ below, IsDirectory other folder below := by
  obtain ⟨below, hbelow⟩ := habreast.agree.isDirAt_iff.mp habreast.isDirAt
  obtain ⟨entries, hentries⟩ := habreast.isDirAt
  exact ⟨⟨entries, htext, hnames, hshort, habreast.agree.free folder, hentries⟩,
    ⟨below, htext, hnames, hshort, habreast.agree.free_other folder, hbelow⟩⟩

theorem carries_ensureDirectories :
    Carries (Abreast changed folder start twin) (Abreast changed folder start twin)
      (ensureDirectories (.ofRoot folder)) := by
  intro disk other habreast
  obtain ⟨⟨entries, hdisk⟩, below, hother⟩ := habreast.isDirectory hnames htext hshort
  rw [hdisk.succeeds_ensureDirectories, hother.succeeds_ensureDirectories]
  exact ⟨rfl, habreast⟩

theorem carries_checkDraft :
    Carries (Abreast changed folder start twin) (Abreast changed folder start twin)
      (look (·.checkDraft (.ofRoot (folder ++ [name])))) := by
  refine carries_look fun disk other habreast => ?_
  obtain ⟨⟨entries, hdisk⟩, below, hother⟩ := habreast.isDirectory hnames htext hshort
  have hplain : Pathname.withoutParents (Pathname.ofRoot folder).parts = folder :=
    withoutParents_of_isName hnames
  unfold Disk.checkDraft
  rw [Pathname.parent_ofRoot_concat, hplain]
  dsimp only
  rw [hdisk.locateDirectory?_eq, hother.locateDirectory?_eq]

theorem carries_entryPlace? :
    Carries (Abreast changed folder start twin) (Abreast changed folder start twin)
      (look (·.entryPlace? (.ofRoot (folder ++ [name])))) := by
  refine carries_look fun disk other habreast => ?_
  obtain ⟨⟨entries, hdisk⟩, below, hother⟩ := habreast.isDirectory hnames htext hshort
  simp only [Disk.entryPlace?, Pathname.parent_ofRoot_concat, hdisk.locateDirectory?_eq,
    hother.locateDirectory?_eq]

omit htext hshort in
theorem carries_find (hname : IsName name) {next : Edit DiskError Unit}
    (hnext : Carries (Abreast changed folder start twin) (Abreast changed folder start twin) next) :
    Carries (Abreast changed folder start twin) (Abreast changed folder start twin)
      (look (·.find (.ofRoot (folder ++ [name]))) >>= fun _ => next) := by
  refine carries_look_bind (fun disk other habreast => ?_) hnext
  have hpath := habreast.agree.avoids_ofRoot (forall_isName_concat hnames hname) (habreast.apart name)
  exact (habreast.agree.find hpath).mono fun _ _ _ => trivial

/-- **A file of the folder is written on both disks or on neither.** -/
theorem carries_replaceFile (hname : IsName name) (hignore : name ≠ ".gitignore") (bytes : List UInt8) :
    Carries (Abreast changed folder start twin) (Abreast changed folder start twin)
      (replaceFile (.ofRoot (folder ++ [name])) bytes) := by
  unfold replaceFile
  rw [Pathname.parent_ofRoot_concat]
  refine (carries_ensureDirectories hnames htext hshort).bind fun _ => ?_
  refine (carries_checkDraft hnames htext hshort).bind fun _ => carries_find hnames hname ?_
  refine (carries_entryPlace? hnames htext hshort).bind_of_succeeds (fun _ _ => id) ?_
  intro entry disk other looked habreast hlook
  cases entry with
  | none => exact carries_throw _
  | some place =>
    obtain ⟨hentry, -⟩ := succeeds_look_iff.mp hlook
    obtain ⟨rfl, -⟩ :=
      Disk.entryPlace?_ofRoot (forall_isName_concat hnames hname) (habreast.agree.free _) hentry
    exact carries_putFile hignore bytes

end Write

end EnvFill.Storage

namespace EnvFill.Project

open Storage Edit EnvFile

variable {changed : Location → Prop} {folder : Location} {start twin : Disk} {name : String}

section Change

variable {α : Type} (hnames : ∀ other ∈ folder, IsName other) (hname : IsName name)

include hnames hname

/-- A file of the folder is changed on the grounds of what it holds. -/
theorem carries_edit {edit : Location → Option (List UInt8) → Edit Error α}
    (hedit : ∀ content, Carries (Abreast changed folder start twin) (Abreast changed folder start twin)
      (edit (folder ++ [name]) content)) :
    Carries (Abreast changed folder start twin) (Abreast changed folder start twin) (do
      let place ← look fun disk => followed (disk.resolve (.ofRoot (folder ++ [name])))
      let content ← look (contentAt · (.ofRoot place))
      edit place content) := by
  have hchild := forall_isName_concat hnames hname
  refine (carries_look fun disk other habreast => ?_).bind_of_succeeds (fun _ _ => id) ?_
  · rw [habreast.agree.resolve_ofRoot hchild]
  intro place disk other looked habreast hlook
  have hresolve := followed_eq_ok_iff.mp (succeeds_look_iff.mp hlook).1
  obtain rfl := Disk.eq_of_resolve_ofRoot hchild (habreast.agree.free _) hresolve
  refine (carries_look fun disk other habreast => ?_).bind hedit
  exact contentAt_eq habreast.agree hchild (habreast.apart name)

end Change

section Write

variable (hnames : ∀ other ∈ folder, IsName other) (htext : Disk.checkText (.ofRoot folder) = .ok ())
  (hshort : ∀ other ∈ folder, isTooLong other = false) (hname : IsName name)
  (hignore : name ≠ ".gitignore")

include hnames htext hshort hname hignore

theorem carries_writeWhole (bytes : List UInt8) :
    Carries (Abreast changed folder start twin) (Abreast changed folder start twin)
      (writeWhole (.ofRoot (folder ++ [name])) bytes) :=
  carries_mapError (carries_replaceFile hnames htext hshort hname hignore bytes) _

theorem carries_writeSettings (entries : Entries) :
    Carries (Abreast changed folder start twin) (Abreast changed folder start twin)
      (writeSettings (.ofRoot (folder ++ [name])) entries) :=
  carries_edit hnames hname fun _ =>
    (carries_writeWhole hnames htext hshort hname hignore _).bind fun _ => carries_pure _

theorem carries_syncTemplate (keys : List String) :
    Carries (Abreast changed folder start twin) (Abreast changed folder start twin)
      (syncTemplate (.ofRoot (folder ++ [name])) keys) := by
  refine carries_edit hnames hname fun content => ?_
  split
  · exact carries_pure _
  · exact (carries_writeWhole hnames htext hshort hname hignore _).bind fun _ => carries_pure _

end Write

end EnvFill.Project
