import EnvFill.Proofs.DiskChanges

/-!
# Files written in two folders

Files that are written in two folders may as well be written the other way round. The disk is the same then
to the order of the entries in its directories, since each folder is there already and no file lies on the
way to the other folder.
-/

namespace EnvFill

/-- A key that is there keeps its place, so it may as well get its value before another key comes. -/
theorem putPair_comm {κ ν : Type} [DecidableEq κ] {key other : κ} {pairs : List (κ × ν)}
    (hne : key ≠ other) (hthere : (pairs.lookup other).isSome) (value new : ν) :
    putPair key value (putPair other new pairs) = putPair other new (putPair key value pairs) := by
  induction pairs with
  | nil => cases hthere
  | cons pair rest ih =>
    by_cases hother : pair.1 = other
    · have hkey : pair.1 ≠ key := fun heq => hne (heq.symm.trans hother)
      simp [putPair, hother, hne.symm]
    · rw [List.lookup_cons, beq_false_of_ne (Ne.symm hother)] at hthere
      by_cases hkey : pair.1 = key
      · simp [putPair, hkey, hne]
      · simp [putPair, hkey, hother, ih hthere]

namespace Storage

open Node

variable {node : Node} {disk : Disk} {front other folder place : Location} {name next : String}
  {new old : Node} {files others : List (String × List UInt8)}

/-- What is put in a directory and what is put below another entry of it. -/
theorem Node.put_comm_of_entry {entries : List (String × Node)} {back : Location} (hne : name ≠ next)
    (hthere : (entries.lookup next).isSome) (new old : Node) :
    put new [name] (put old (next :: back) (.dir entries)) =
      put old (next :: back) (put new [name] (.dir entries)) := by
  simp only [put]
  rw [lookup_putPair_of_ne hne.symm, putPair_comm hne hthere]

/-- What is put in two directories may as well be put the other way round. -/
theorem Node.put_comm (hfront : ∃ entries, node.get? front = some (.dir entries))
    (hother : ∃ entries, node.get? other = some (.dir entries)) (hne : front ≠ other)
    (hbelow : ¬front ++ [name] <+: other) (habove : ¬other ++ [next] <+: front) (new old : Node) :
    put new (front ++ [name]) (put old (other ++ [next]) node) =
      put old (other ++ [next]) (put new (front ++ [name]) node) := by
  -- Both paths are followed until they part. Each goes on through an entry that is there already.
  induction front generalizing node other with
  | nil =>
    obtain ⟨entries, hdir⟩ := hfront
    obtain rfl : node = .dir entries := Option.some.inj hdir
    obtain ⟨step, rest, rfl⟩ := List.exists_cons_of_ne_nil hne.symm
    obtain ⟨child, hlookup, -⟩ := Option.bind_eq_some_iff.mp hother.choose_spec
    have hstep : name ≠ step := fun heq => hbelow (heq ▸ ⟨rest, rfl⟩)
    exact put_comm_of_entry hstep (Option.isSome_of_eq_some hlookup) new old
  | cons step rest ih =>
    obtain ⟨child, hlookup, hrest⟩ := Option.bind_eq_some_iff.mp hfront.choose_spec
    cases node with
    | file bytes => cases hlookup
    | link target => cases hlookup
    | dir entries =>
      cases other with
      | nil =>
        have hstep : next ≠ step := fun heq => habove (heq ▸ ⟨rest, rfl⟩)
        exact (put_comm_of_entry hstep (Option.isSome_of_eq_some hlookup) old new).symm
      | cons otherStep otherRest =>
        obtain ⟨twin, htwin, hotherRest⟩ := Option.bind_eq_some_iff.mp hother.choose_spec
        change entries.lookup step = some child at hlookup
        change entries.lookup otherStep = some twin at htwin
        simp only [List.cons_append, put]
        by_cases hstep : step = otherStep
        · subst hstep
          obtain rfl : child = twin := Option.some.inj (hlookup.symm.trans htwin)
          simp only [lookup_putPair_self, hlookup, Option.getD_some, putPair_putPair]
          rw [ih ⟨_, hrest⟩ ⟨_, hotherRest⟩ (fun heq => hne (heq ▸ rfl))
            (fun hstarts => hbelow (List.cons_prefix_cons.mpr ⟨rfl, hstarts⟩))
            (fun hstarts => habove (List.cons_prefix_cons.mpr ⟨rfl, hstarts⟩))]
        · rw [lookup_putPair_of_ne hstep, lookup_putPair_of_ne (Ne.symm hstep),
            putPair_comm hstep (Option.isSome_of_eq_some htwin)]

/-- What lies on the way to a directory is one. -/
theorem IsDirAt.not_isPrefix (hdir : IsDirAt disk place) (hfront : ¬IsDirAt disk front) :
    ¬front <+: place := by
  rintro ⟨back, rfl⟩
  obtain ⟨entries, hget⟩ := hdir
  cases back with
  | nil => exact hfront ⟨entries, by rwa [List.append_nil] at hget⟩
  | cons name rest =>
    have hroom : HasRoom (front ++ name :: rest) disk.top := hasRoom_of_get? hget
    rw [get?_append] at hget
    obtain ⟨node, hnode, -⟩ := Option.bind_eq_some_iff.mp hget
    obtain ⟨below, rfl⟩ := exists_dir_of_hasRoom (List.cons_ne_nil name rest) hroom hnode
    exact hfront ⟨below, hnode⟩

theorem IsDirAt.put (hdir : IsDirAt disk place) (hfront : ¬front <+: place) (new : Node) :
    IsDirAt (disk.put front new) place := by
  unfold IsDirAt
  rw [Disk.top_put]
  by_cases hplace : place <+: front
  · obtain ⟨back, rfl⟩ := hplace
    have hback : back ≠ [] := fun hnil => hfront (by rw [hnil, List.append_nil])
    by_cases hroom : HasRoom (place ++ back) disk.top
    · exact exists_dir_get?_put hback hroom
    · rw [put_of_not_hasRoom hroom]
      exact hdir
  · rw [get?_put_of_apart hfront hplace]
    exact hdir

theorem not_concat_isPrefix (folder : Location) (name : String) : ¬folder ++ [name] <+: folder := by
  intro hstarts
  have hlength := hstarts.length_le
  rw [List.length_append, List.length_singleton] at hlength
  omega

def Disk.putFiles (folder : Location) (files : List (String × List UInt8)) (disk : Disk) : Disk :=
  files.foldl (fun disk file => disk.put (folder ++ [file.1]) (.file file.2)) disk

theorem Disk.putFiles_cons (folder : Location) (file : String × List UInt8)
    (files : List (String × List UInt8)) (disk : Disk) :
    disk.putFiles folder (file :: files) =
      (disk.put (folder ++ [file.1]) (.file file.2)).putFiles folder files := rfl

theorem Disk.putFiles_concat (folder : Location) (files : List (String × List UInt8))
    (file : String × List UInt8) (disk : Disk) :
    disk.putFiles folder (files ++ [file]) =
      (disk.putFiles folder files).put (folder ++ [file.1]) (.file file.2) := by
  unfold Disk.putFiles
  rw [List.foldl_append, List.foldl_cons, List.foldl_nil]

/-- One file may as well be written before the files in another folder. -/
theorem Disk.putFiles_put (hfolder : IsDirAt disk folder) (hother : IsDirAt disk other)
    (hne : folder ≠ other) (hfiles : ∀ file ∈ files, ¬folder ++ [file.1] <+: other)
    (hname : ¬other ++ [name] <+: folder) (new : Node) :
    (disk.putFiles folder files).put (other ++ [name]) new =
      (disk.put (other ++ [name]) new).putFiles folder files := by
  induction files generalizing disk with
  | nil => rfl
  | cons file files ih =>
    obtain ⟨hfile, hrest⟩ := List.forall_mem_cons.mp hfiles
    have hswap : (disk.put (folder ++ [file.1]) (.file file.2)).put (other ++ [name]) new =
        (disk.put (other ++ [name]) new).put (folder ++ [file.1]) (.file file.2) :=
      congrArg (Disk.mk · disk.current) (put_comm hother hfolder hne.symm hname hfile _ _)
    have hfolderStays := hfolder.put (not_concat_isPrefix folder file.1) (.file file.2)
    calc (disk.putFiles folder (file :: files)).put (other ++ [name]) new
        = ((disk.put (folder ++ [file.1]) (.file file.2)).putFiles folder files).put
            (other ++ [name]) new := rfl
      _ = ((disk.put (folder ++ [file.1]) (.file file.2)).put (other ++ [name]) new).putFiles
            folder files := ih hfolderStays (hother.put hfile _) hrest
      _ = (disk.put (other ++ [name]) new).putFiles folder (file :: files) := by
          rw [hswap, Disk.putFiles_cons]

/-- **Files in two folders may be written in either order.** -/
theorem Disk.putFiles_comm (hfolder : IsDirAt disk folder) (hother : IsDirAt disk other)
    (hne : folder ≠ other) (hfiles : ∀ file ∈ files, ¬folder ++ [file.1] <+: other)
    (hothers : ∀ file ∈ others, ¬other ++ [file.1] <+: folder) :
    (disk.putFiles folder files).putFiles other others =
      (disk.putFiles other others).putFiles folder files := by
  induction others generalizing disk with
  | nil => rfl
  | cons file others ih =>
    obtain ⟨hfile, hrest⟩ := List.forall_mem_cons.mp hothers
    have hotherStays := hother.put (not_concat_isPrefix other file.1) (.file file.2)
    calc (disk.putFiles folder files).putFiles other (file :: others)
        = ((disk.putFiles folder files).put (other ++ [file.1]) (.file file.2)).putFiles
            other others := rfl
      _ = ((disk.put (other ++ [file.1]) (.file file.2)).putFiles folder files).putFiles
            other others := by rw [Disk.putFiles_put hfolder hother hne hfiles hfile]
      _ = (disk.putFiles other (file :: others)).putFiles folder files :=
          ih (hfolder.put hfile _) hotherStays hrest

end Storage

end EnvFill
