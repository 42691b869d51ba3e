import EnvFill.Project.Settings
import EnvFill.Proofs.RepeatedEdits
import EnvFill.Proofs.WriteFile

/-!
# Settings files on the disk

A write of settings edits the content of one file and leaves the rest of the disk alone. So what
holds of edits holds of runs of writes, for every disk on which the writes succeed.
-/

namespace EnvFill.Project

open Storage EnvFile Node

variable {disk after : Disk} {path : Pathname} {place : Location} {content : Option (List UInt8)}
  {entries : Entries} {count : Nat} {batches : List Entries} {counts : List Nat}

/-- `path` stands for `place`, to which no link leads, and a file with the given content lies there,
or nothing does. -/
structure IsTarget (disk : Disk) (path : Pathname) (place : Location)
    (content : Option (List UInt8)) : Prop where
  resolve_eq : disk.resolve path = .ok place
  linkFree : IsLinkFree place disk.top
  content_eq : disk.top.get? place = content.map .file

theorem IsTarget.isName (htarget : IsTarget disk path place content) :
    ∀ name ∈ place, IsName name :=
  Disk.isName_of_resolve htarget.resolve_eq

theorem followed_eq_ok_iff {α : Type} {result : Except DiskError α} {a : α} :
    followed result = .ok a ↔ result = .ok a := by
  cases result <;> simp [followed, Except.mapError]

theorem followed_eq_error_iff {α : Type} {result : Except DiskError α} {error : Error} :
    followed result = .error error ↔ ∃ cause, result = .error cause ∧ error = .notFollowed cause := by
  cases result <;> simp [followed, Except.mapError, eq_comm]

theorem IsTarget.contentAt_eq (htarget : IsTarget disk path place content)
    (htext : Disk.checkText (.ofRoot place) = .ok ()) {read : Option (List UInt8)}
    (hread : contentAt disk (.ofRoot place) = .ok read) : read = content := by
  unfold contentAt at hread
  cases hfind : followed (disk.find (.ofRoot place)) with
  | error error => simp [hfind, bind, Except.bind] at hread
  | ok node =>
    have hnode := Disk.find_ofRoot htarget.isName htarget.linkFree (followed_eq_ok_iff.mp hfind) htext
    rw [htarget.content_eq] at hnode
    rw [hfind, hnode] at hread
    cases content with
    | none => exact (Except.ok.inj hread).symm
    | some bytes => exact (Except.ok.inj hread).symm

theorem succeeds_writeWhole_iff {file : Pathname} {bytes : List UInt8} :
    Succeeds (writeWhole file bytes) disk () after ↔
      Succeeds (replaceFile file bytes) disk () after :=
  Edit.succeeds_mapError_iff

/-- **One write.** The file holds the edited content and nothing else changes. -/
theorem IsTarget.writeSettings_eq (htarget : IsTarget disk path place content)
    (hwrite : Succeeds (writeSettings path entries) disk count after) :
    IsWritable place disk ∧ count = entries.size ∧
      after = disk.put place (.file (setEntries entries content)) := by
  simp only [writeSettings, succeeds_bind_iff, Edit.succeeds_look_iff, succeeds_pure_iff] at hwrite
  obtain ⟨found, _, ⟨hfound, rfl⟩, read, _, ⟨hread, rfl⟩, _, _, hwhole, rfl, rfl⟩ := hwrite
  obtain rfl : place = found :=
    Except.ok.inj (htarget.resolve_eq.symm.trans (followed_eq_ok_iff.mp hfound))
  obtain ⟨hwritable, hafter⟩ :=
    succeeds_replaceFile htarget.isName htarget.linkFree (succeeds_writeWhole_iff.mp hwhole)
  obtain rfl := htarget.contentAt_eq hwritable.text hread
  exact ⟨hwritable, rfl, hafter⟩

/-- Where some settings can be written, all can. -/
theorem IsTarget.succeeds_writeSettings (htarget : IsTarget disk path place content)
    (hwrite : Succeeds (writeSettings path entries) disk count after) (other : Entries) :
    Succeeds (writeSettings path other) disk other.size
      (disk.put place (.file (setEntries other content))) := by
  obtain ⟨hwritable, -, -⟩ := htarget.writeSettings_eq hwrite
  simp only [writeSettings, succeeds_bind_iff, Edit.succeeds_look_iff, succeeds_pure_iff]
    at hwrite ⊢
  obtain ⟨found, _, ⟨hfound, rfl⟩, read, _, ⟨hread, rfl⟩, _, _, hwhole, rfl, rfl⟩ := hwrite
  obtain rfl : place = found :=
    Except.ok.inj (htarget.resolve_eq.symm.trans (followed_eq_ok_iff.mp hfound))
  obtain rfl := htarget.contentAt_eq hwritable.text hread
  obtain ⟨after, hother⟩ :=
    exists_succeeds_replaceFile (succeeds_writeWhole_iff.mp hwhole) (setEntries other read)
  obtain ⟨-, rfl⟩ := succeeds_replaceFile htarget.isName htarget.linkFree hother
  exact ⟨place, _, ⟨hfound, rfl⟩, read, _, ⟨hread, rfl⟩, (), _,
    succeeds_writeWhole_iff.mpr hother, trivial, rfl⟩

/-- A path stands for the same place after a file was put there. -/
theorem IsTarget.put_of_hasRoom (htarget : IsTarget disk path place content)
    (hroom : HasRoom place disk.top) (bytes : List UInt8) :
    IsTarget (disk.put place (.file bytes)) path place (some bytes) := by
  have hlinks := get?_put_eq_link_iff (get?_file_ne_link bytes)
    (get?_append_ne_link htarget.content_eq)
  have hfree : IsLinkFree place (disk.put place (.file bytes)).top :=
    fun front hfront target hlink => htarget.linkFree front hfront target ((hlinks _ _).mp hlink)
  have hcount : (disk.put place (.file bytes)).top.linkCount = disk.top.linkCount := by
    refine linkCount_put ?_ hroom
    rw [htarget.content_eq]
    cases content <;> simp [linkCount]
  refine ⟨?_, hfree, get?_put_self hroom⟩
  obtain ⟨hzero, hplace⟩ := Disk.resolve_eq_ok htarget.resolve_eq
  have hsame : Pathname.withoutParents (resolveFrom (disk.put place (.file bytes)).top
      (disk.put place (.file bytes)).top.linkCount []
        ((disk.put place (.file bytes)).startOf path) path.parts).steps = place := by
    rw [hcount, Disk.top_put, resolveFrom_congr hlinks]
    exact hplace.symm
  unfold Disk.resolve
  rw [hzero, if_neg Bool.false_ne_true]
  dsimp only
  rw [hsame]
  split
  · rename_i hmany
    exact absurd hmany (Disk.locate?_ofRoot_ne_tooManyLinks htarget.isName hfree)
  · rfl

theorem IsTarget.put (htarget : IsTarget disk path place content)
    (hwritable : IsWritable place disk) (bytes : List UInt8) :
    IsTarget (disk.put place (.file bytes)) path place (some bytes) :=
  htarget.put_of_hasRoom hwritable.room bytes

def sampleDisk : Disk :=
  ⟨.dir [(".env", .file (Text.Utf8.encodeText "A=1\n".toList))], []⟩

theorem isTarget_sampleDisk :
    IsTarget sampleDisk (.ofRoot [".env"]) [".env"]
      (some (Text.Utf8.encodeText "A=1\n".toList)) :=
  ⟨by cbv, isLinkFree_of_linkCount rfl _, rfl⟩

/-- The content of a file after settings were written to it, one batch after another. -/
def contentAfter (batches : List Entries) (content : Option (List UInt8)) : Option (List UInt8) :=
  batches.foldl (fun content batch => some (setEntries batch content)) content

/-- **A run of writes.** The file holds the content after all edits and nothing else changes. -/
theorem IsTarget.writeAll_eq (htarget : IsTarget disk path place content)
    (hrun : Succeeds (batches.mapM (writeSettings path)) disk counts after) :
    counts = batches.map OrderedMap.size ∧ IsTarget after path place (contentAfter batches content) ∧
      (batches ≠ [] → ∃ bytes, contentAfter batches content = some bytes ∧
        after = disk.put place (.file bytes)) := by
  induction batches generalizing disk content counts with
  | nil =>
    rw [List.mapM_nil] at hrun
    obtain ⟨rfl, rfl⟩ := succeeds_pure_iff.mp hrun
    exact ⟨rfl, htarget, fun hne => absurd rfl hne⟩
  | cons batch rest ih =>
    obtain ⟨first, middle, tail, hwrite, hrest, rfl⟩ := succeeds_mapM_cons_iff.mp hrun
    obtain ⟨hwritable, rfl, rfl⟩ := htarget.writeSettings_eq hwrite
    obtain ⟨rfl, htarget', hafter⟩ := ih (htarget.put hwritable _) hrest
    refine ⟨rfl, htarget', fun _ => ?_⟩
    cases rest with
    | nil =>
      rw [List.mapM_nil] at hrest
      obtain ⟨-, rfl⟩ := succeeds_pure_iff.mp hrest
      exact ⟨setEntries batch content, rfl, rfl⟩
    | cons next rest =>
      obtain ⟨bytes, hbytes, hput⟩ := hafter (List.cons_ne_nil next rest)
      exact ⟨bytes, hbytes, by rw [hput, Disk.put_put]⟩

end EnvFill.Project
