import EnvFill.Command.Run
import EnvFill.Proofs.FolderWrites
import EnvFill.Proofs.SavedAnswers
import EnvFill.Proofs.SkippedFolders

/-!
# Projects without folders in them

Where the search for folders enters no directory, it finds the project itself, if it holds a settings file.
A command works in the project if it is a folder.
-/

namespace EnvFill.Project

open Storage Node EnvFile Text

variable {disk : Disk} {folder : Location} {entries : List (String × Node)} {maxDepth : Int}

theorem join_markerFile {name : String} (folder : Location) (hname : name ∈ Name.markerFiles) :
    (Pathname.ofRoot folder).join (.ofString name) = .ofRoot (folder ++ [name]) := by
  have hpath : ∀ name ∈ Name.markerFiles, Pathname.ofString name = ⟨.current, [name]⟩ := by decide
  rw [hpath name hname]
  rfl

theorem markersIn_of_bytes {content : String → Option (List UInt8)}
    (hbytes : ∀ name ∈ Name.markerFiles, disk.bytes? (.ofRoot (folder ++ [name])) = .ok (content name)) :
    markersIn disk (.ofRoot folder) = .ok (Name.markerFiles.filter fun name => (content name).isSome) := by
  refine (filterM_eq_ok_iff (P := fun _ => True) fun name hname answer => ?_).mpr ⟨fun _ _ => trivial, rfl⟩
  rw [join_markerFile folder hname, Disk.isFile, hbytes name hname]
  exact ⟨fun hfile => ⟨trivial, (Except.ok.inj hfile).symm⟩, fun hfile => congrArg _ hfile.2.symm⟩

/-- Where no directory is searched, there is only the project itself to be found. -/
theorem discover_of_isDirectory (hfolder : IsDirectory disk folder entries) {markers : List String}
    (hmarkers : markersIn disk (.ofRoot folder) = .ok markers)
    (hsub : ∀ entry ∈ entries, entry.2.isDir = true → isSearched maxDepth [entry.1] = false)
    (hdepth : 0 ≤ maxDepth) :
    discover disk (.ofRoot folder) maxDepth =
      .ok (if markers.isEmpty then [] else [⟨".", folder, markers⟩]) := by
  have hwalk : walkFrom (isSearched maxDepth) [] (.dir entries) = [⟨[], entries⟩] := by
    rw [walkFrom, List.flatMap_eq_nil_iff.mpr]
    intro walk hwalk
    obtain ⟨⟨name, child⟩, hentry, rfl⟩ := mem_walkEntries_iff.mp (mem_byName.mp hwalk)
    rw [walkEntry]
    cases child with
    | dir inner => exact if_neg (by simpa using hsub _ hentry rfl)
    | file bytes => rw [walkFrom]; exact ite_self _
    | link target => rw [walkFrom]; exact ite_self _
  obtain ⟨place, hplace, hdiscover⟩ := discover_of_scanRoot (scanRoot_of_isDirectory hfolder) hdepth
  obtain rfl : folder = place := Except.ok.inj (hfolder.resolve_eq.symm.trans hplace)
  have hfound : folderAt? disk folder [] =
      .ok (if markers.isEmpty then none else some ⟨".", folder, markers⟩) := by
    unfold folderAt?
    rw [List.append_nil, hmarkers]
    rfl
  rw [hdiscover, hwalk, List.map_singleton, List.mapM_cons, hfound]
  cases markers <;> rfl

theorem discover_of_isFolder (hfolder : IsFolder disk folder entries)
    (hroom : ∀ name ∈ Name.markerFiles, HasRoomFor folder name)
    (hsub : ∀ entry ∈ entries, entry.2.isDir = true → isSearched maxDepth [entry.1] = false)
    (hdepth : 0 ≤ maxDepth) {markers : List String}
    (hmarkers : Name.markerFiles.filter (fun name => ((entries.lookup name).bind Node.bytes?).isSome) =
      markers) :
    discover disk (.ofRoot folder) maxDepth =
      .ok (if markers.isEmpty then [] else [⟨".", folder, markers⟩]) := by
  have hbytes : ∀ name ∈ Name.markerFiles, disk.bytes? (.ofRoot (folder ++ [name])) =
      .ok ((entries.lookup name).bind Node.bytes?) := fun name hname => by
    rw [Disk.bytes?, hfolder.find_eq (hroom name hname)]
    rfl
  exact discover_of_isDirectory hfolder.isDirectory (hmarkers ▸ markersIn_of_bytes hbytes) hsub hdepth

end EnvFill.Project

namespace EnvFill.Command

open Procedure Storage Project

/-- A command works in the folder that it is given. -/
theorem succeeds_chooseRoot {target : String} {root : Location} {entries : List (String × Node)}
    {world : World} (hroot : world.disk.resolve (.ofString target) = .ok root)
    (hfolder : IsDirectory world.disk root entries) :
    Succeeds (chooseRoot target) world (some root) world := by
  have hfind : world.disk.find (.ofRoot root) = .ok (some (.dir entries)) := by
    rw [Disk.find, Disk.findPlace_eq_some_iff.mpr hfolder.locate?_eq, ← hfolder.get_eq]
    rfl
  refine succeeds_bind_iff.mpr ⟨root, _, succeeds_lookUp_iff.mpr ⟨?_, rfl⟩, ?_⟩
  · exact followed_eq_ok_iff.mpr hroot
  refine succeeds_bind_iff.mpr ⟨true, _, succeeds_lookUp_iff.mpr ⟨?_, rfl⟩, ?_⟩
  · rw [Disk.exists?, hfind]
    rfl
  refine succeeds_bind_iff.mpr ⟨true, _, succeeds_lookUp_iff.mpr ⟨?_, rfl⟩, ?_⟩
  · rw [Disk.isDir, hfind]
    rfl
  exact succeeds_pure_iff.mpr ⟨rfl, rfl⟩

end EnvFill.Command
