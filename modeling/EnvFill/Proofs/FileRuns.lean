import EnvFill.Proofs.SettingsFile

/-!
# Runs of writes to one file

Writes one after another are followed in memory by merging what they wrote, and on the disk by one
write of all of it.
-/

namespace EnvFill.Project

open Storage EnvFile Node

variable {disk after : Disk} {path : Pathname} {place : Location} {content : Option (List UInt8)}
  {batches : List Entries} {counts : List Nat}

/-- Settings with keys and values that are read back as they are written. -/
structure IsReadBack (entries : Entries) : Prop where
  keys : HasWritableKeys entries
  values : HasFileValues entries

instance : DecidablePred IsReadBack := fun entries =>
  decidable_of_iff (HasWritableKeys entries ∧ HasFileValues entries)
    ⟨fun ⟨hkeys, hvalues⟩ => ⟨hkeys, hvalues⟩, fun ⟨hkeys, hvalues⟩ => ⟨hkeys, hvalues⟩⟩

theorem IsReadBack.merge {first later : Entries} (hfirst : IsReadBack first)
    (hlater : IsReadBack later) : IsReadBack (first.merge later) :=
  ⟨hfirst.keys.merge hlater.keys, hfirst.values.merge hlater.values⟩

theorem IsReadBack.foldl_merge {first : Entries} (hfirst : IsReadBack first)
    (hbatches : ∀ batch ∈ batches, IsReadBack batch) :
    IsReadBack (batches.foldl OrderedMap.merge first) := by
  induction batches generalizing first with
  | nil => exact hfirst
  | cons batch rest ih =>
    exact ih (hfirst.merge (hbatches batch List.mem_cons_self))
      fun other hother => hbatches other (List.mem_cons_of_mem batch hother)

theorem settingsOf_contentAfter (hbatches : ∀ batch ∈ batches, IsReadBack batch)
    (hplain : HavePlainKeys (linesOf content)) :
    settingsOf (contentAfter batches content) =
      batches.foldl OrderedMap.merge (settingsOf content) := by
  induction batches generalizing content with
  | nil => rfl
  | cons batch rest ih =>
    have hbatch := hbatches batch List.mem_cons_self
    have hrest := ih (fun other hother => hbatches other (List.mem_cons_of_mem batch hother))
      (hplain.setEntries hbatch.keys hbatch.values)
    rw [contentAfter, List.foldl_cons, ← contentAfter, hrest,
      settingsOf_setEntries hbatch.keys hbatch.values hplain, List.foldl_cons]

theorem readSettings_of_bytes (hbytes : disk.bytes? path = .ok content) :
    readSettings disk path = .ok (settingsOf content) := by
  unfold readSettings
  rw [hbytes]
  cases content <;> rfl

theorem bytes?_of_locate (hlocate : disk.locate? path = .ok place) :
    disk.bytes? path = .ok ((disk.top.get? place).bind Node.bytes?) := by
  unfold Disk.bytes? Disk.find Disk.findPlace
  rw [hlocate]
  rfl

/-- What is read through a path that leads to a place, once a file lies there, is what lies there. -/
theorem readSettings_of_reached (hcontent : disk.top.get? place = content.map .file)
    (hreached : ∀ bytes, (disk.put place (.file bytes)).locate? path = .ok place) {found : Entries}
    (hfound : readSettings disk path = .ok found) : found = settingsOf content := by
  cases content with
  | some bytes =>
    have hsame : disk.put place (.file bytes) = disk := by
      rw [Disk.put, put_self hcontent]
    have hlocate := bytes?_of_locate (hsame ▸ hreached bytes)
    rw [hcontent] at hlocate
    exact Except.ok.inj (hfound.symm.trans (readSettings_of_bytes hlocate))
  | none =>
    obtain ⟨read, hread, -⟩ := except_bind_eq_ok_iff.mp hfound
    have hbytes : disk.bytes? path = .ok read := followed_eq_ok_iff.mp hread
    cases read with
    | none => exact Except.ok.inj (hfound.symm.trans (readSettings_of_bytes hbytes))
    | some bytes =>
      -- the path would lead to another file, and still do so with a file at the place
      obtain ⟨goal, hgoal, hfile⟩ := Disk.bytes?_eq_some_iff.mp hbytes
      obtain ⟨htext, hfrom⟩ := Disk.locate?_eq_ok_iff.mp hgoal
      have hlater : (disk.put place (.file bytes)).locate? path = .ok goal :=
        Disk.locate?_eq_ok_iff.mpr ⟨htext, locateFrom?_put hcontent bytes hfrom⟩
      obtain rfl : goal = place := Except.ok.inj (hlater.symm.trans (hreached bytes))
      rw [hcontent] at hfile
      cases hfile

theorem succeeds_mapM_append {ε σ α β : Type} {f : α → ExceptT ε (StateM σ) β} {s t : σ}
    {front back : List α} {results : List β} (hrun : Succeeds ((front ++ back).mapM f) s results t) :
    ∃ first u last, Succeeds (front.mapM f) s first u ∧ Succeeds (back.mapM f) u last t ∧
      results = first ++ last := by
  induction front generalizing s results with
  | nil =>
    refine ⟨[], s, results, ?_, hrun, rfl⟩
    rw [List.mapM_nil]
    exact succeeds_pure_iff.mpr ⟨rfl, rfl⟩
  | cons a front ih =>
    obtain ⟨b, u, tail, hfirst, hrest, rfl⟩ := succeeds_mapM_cons_iff.mp hrun
    obtain ⟨first, v, last, hfront, hback, rfl⟩ := ih hrest
    exact ⟨b :: first, v, last, succeeds_mapM_cons_iff.mpr ⟨b, u, first, hfirst, hfront, rfl⟩, hback,
      rfl⟩

/-- **Memory mirrors the disk.** While settings are written batch after batch, the file is read as
what was read before the first write with all batches so far merged in, and each write counts the
keys of its batch. The path has to lead to the place that it stands for, once a file is there. -/
theorem readSettings_mirrors_writes (htarget : IsTarget disk path place content)
    (hreached : ∀ bytes, (disk.put place (.file bytes)).locate? path = .ok place)
    (hplain : HavePlainKeys (linesOf content)) {existing : Entries}
    (hexisting : readSettings disk path = .ok existing)
    (hbatches : ∀ batch ∈ batches, IsReadBack batch)
    (hrun : Succeeds (batches.mapM (writeSettings path)) disk counts after) {front back : List Entries}
    (hsplit : batches = front ++ back) :
    ∃ middle, Succeeds (front.mapM (writeSettings path)) disk (front.map OrderedMap.size) middle ∧
      readSettings middle path = .ok (front.foldl OrderedMap.merge existing) := by
  subst hsplit
  obtain rfl := readSettings_of_reached htarget.content_eq hreached hexisting
  have hfront : ∀ batch ∈ front, IsReadBack batch :=
    fun batch hbatch => hbatches batch (List.mem_append_left _ hbatch)
  obtain ⟨first, middle, -, hfirst, -, -⟩ := succeeds_mapM_append hrun
  obtain ⟨rfl, hmiddle, hafter⟩ := htarget.writeAll_eq hfirst
  refine ⟨middle, hfirst, ?_⟩
  rw [← settingsOf_contentAfter hfront hplain]
  cases front with
  | nil =>
    rw [List.mapM_nil] at hfirst
    obtain ⟨-, rfl⟩ := succeeds_pure_iff.mp hfirst
    exact hexisting
  | cons batch rest =>
    obtain ⟨bytes, hbytes, hput⟩ := hafter (List.cons_ne_nil batch rest)
    have hlocate : middle.locate? path = .ok place := hput ▸ hreached bytes
    refine readSettings_of_bytes ?_
    rw [bytes?_of_locate hlocate, hmiddle.content_eq, hbytes]
    rfl

/-- A known key is given a new value and a new key is added. -/
theorem readSettings_mirrors_update_and_addition :
    ∃ middle,
      Succeeds ([OrderedMap.ofList [("A", "2")], OrderedMap.ofList [("B", "x y")]].mapM
          (writeSettings (.ofRoot [".env"]))) sampleDisk [1, 1] middle ∧
        readSettings middle (.ofRoot [".env"]) =
          .ok ([OrderedMap.ofList [("A", "2")], OrderedMap.ofList [("B", "x y")]].foldl
            OrderedMap.merge (OrderedMap.ofList [("A", "1")])) := by
  have hrun :
      Succeeds ([OrderedMap.ofList [("A", "2")], OrderedMap.ofList [("B", "x y")]].mapM
          (writeSettings (.ofRoot [".env"]))) sampleDisk [1, 1]
        (outcome ([OrderedMap.ofList [("A", "2")], OrderedMap.ofList [("B", "x y")]].mapM
          (writeSettings (.ofRoot [".env"]))) sampleDisk).2 :=
    Prod.ext (by cbv) rfl
  exact readSettings_mirrors_writes isTarget_sampleDisk (fun bytes => by cbv)
    (by decide +kernel) (by cbv) (by decide) hrun (List.append_nil _).symm

/-- Through a directory that is missing and out of it again, settings are written to a file and not read
from it. -/
theorem settings_written_past_missing_directory_are_not_read :
    IsTarget sampleDisk (.ofString "new/../.env") [".env"] (some (Text.Utf8.encodeText "A=1\n".toList)) ∧
      HavePlainKeys (linesOf (some (Text.Utf8.encodeText "A=1\n".toList))) ∧
        IsReadBack (OrderedMap.ofList [("A", "2"), ("B", "3")]) ∧
          readSettings sampleDisk (.ofString "new/../.env") = .ok ∅ ∧
            ∃ after, Succeeds (writeSettings (.ofString "new/../.env")
                (OrderedMap.ofList [("A", "2"), ("B", "3")])) sampleDisk 2 after ∧
              readSettings after (.ofString "new/../.env") ≠
                .ok (OrderedMap.merge ∅ (OrderedMap.ofList [("A", "2"), ("B", "3")])) := by
  have htarget : IsTarget sampleDisk (.ofString "new/../.env") [".env"]
      (some (Text.Utf8.encodeText "A=1\n".toList)) :=
    ⟨by cbv, isTarget_sampleDisk.linkFree, isTarget_sampleDisk.content_eq⟩
  refine ⟨htarget, by decide +kernel, by decide, by cbv,
    (outcome (writeSettings (.ofString "new/../.env") (OrderedMap.ofList [("A", "2"), ("B", "3")]))
      sampleDisk).2, Prod.ext (by cbv) rfl, fun hmirrored => ?_⟩
  have hlater : readSettings (outcome (writeSettings (.ofString "new/../.env")
      (OrderedMap.ofList [("A", "2"), ("B", "3")])) sampleDisk).2 (.ofString "new/../.env") = .ok ∅ := by
    cbv
  exact absurd (congrArg OrderedMap.toList (Except.ok.inj (hlater.symm.trans hmirrored))) (by decide)

/-- Edits one after another come to one edit with all settings. -/
theorem contentAfter_cons {first : Entries} {rest : List Entries} (hfirst : IsReadBack first)
    (hrest : ∀ batch ∈ rest, IsReadBack batch)
    (hroom : (∃ line ∈ linesOf content, isBlankLine line = false) ∨
      ∀ batch ∈ rest, ∀ key ∈ batch.keys, key ∈ first.keys) :
    contentAfter (first :: rest) content =
      some (setEntries (rest.foldl OrderedMap.merge first) content) := by
  induction rest generalizing first with
  | nil => rfl
  | cons batch rest ih =>
    have hbatch := hrest batch List.mem_cons_self
    have htwo : contentAfter (first :: batch :: rest) content =
        contentAfter (first.merge batch :: rest) content := by
      have hedit : setEntries batch (some (setEntries first content)) =
          setEntries (first.merge batch) content :=
        setEntries_setEntries hfirst.keys hfirst.values hbatch.keys
          (hroom.imp_right fun hkeys => hkeys batch List.mem_cons_self)
      simp only [contentAfter, List.foldl_cons, hedit]
    rw [htwo, List.foldl_cons]
    refine ih (hfirst.merge hbatch)
      (fun other hother => hrest other (List.mem_cons_of_mem batch hother)) ?_
    refine hroom.imp_right fun hkeys other hother key hkey => ?_
    exact OrderedMap.mem_keys_merge.mpr
      (.inl (hkeys other (List.mem_cons_of_mem batch hother) key hkey))

/-- **Saving one by one is saving once.** If the file has a line that is not blank, or if no later
batch has a new key, batches written one after another leave the disk that one write of their merge
leaves, and writing the merge again changes nothing. -/
theorem writes_eq_write_of_merge (htarget : IsTarget disk path place content) {first : Entries}
    {rest : List Entries} (hbatches : ∀ batch ∈ first :: rest, IsReadBack batch)
    (hroom : (∃ line ∈ linesOf content, isBlankLine line = false) ∨
      ∀ batch ∈ rest, ∀ key ∈ batch.keys, key ∈ first.keys)
    (hrun : Succeeds ((first :: rest).mapM (writeSettings path)) disk counts after) :
    Succeeds (writeSettings path (rest.foldl OrderedMap.merge first)) disk
        (rest.foldl OrderedMap.merge first).size after ∧
      ∀ count again, Succeeds (writeSettings path (rest.foldl OrderedMap.merge first)) after count
        again → again = after := by
  have hfirst := hbatches first List.mem_cons_self
  have hrest : ∀ batch ∈ rest, IsReadBack batch :=
    fun batch hbatch => hbatches batch (List.mem_cons_of_mem first hbatch)
  have hmerged : IsReadBack (rest.foldl OrderedMap.merge first) := by
    clear hbatches hroom hrun
    induction rest generalizing first with
    | nil => exact hfirst
    | cons batch rest ih =>
      exact ih (hfirst.merge (hrest batch List.mem_cons_self))
        fun other hother => hrest other (List.mem_cons_of_mem batch hother)
  obtain ⟨_, _, _, hwrite, -, -⟩ := succeeds_mapM_cons_iff.mp hrun
  obtain ⟨-, hafter, hput⟩ := htarget.writeAll_eq hrun
  obtain ⟨bytes, hbytes, rfl⟩ := hput (List.cons_ne_nil first rest)
  have hcontent := contentAfter_cons hfirst hrest hroom
  obtain rfl := Option.some.inj (hbytes.symm.trans hcontent)
  refine ⟨htarget.succeeds_writeSettings hwrite _, fun count again hagain => ?_⟩
  rw [hcontent] at hafter
  obtain ⟨-, -, rfl⟩ := hafter.writeSettings_eq hagain
  rw [setEntries_setEntries hmerged.keys hmerged.values hmerged.keys (.inr fun _ hkey => hkey),
    OrderedMap.merge_self, Disk.put_put]

/-- The second batch changes what the first one wrote and adds a key. -/
theorem writes_eq_write_of_update_and_addition :
    Succeeds (writeSettings (.ofRoot [".env"])
        ([OrderedMap.ofList [("B", "3"), ("C", "4")]].foldl OrderedMap.merge
          (OrderedMap.ofList [("B", "2")]))) sampleDisk 2
      (outcome ([OrderedMap.ofList [("B", "2")], OrderedMap.ofList [("B", "3"), ("C", "4")]].mapM
        (writeSettings (.ofRoot [".env"]))) sampleDisk).2 := by
  have hrun :
      Succeeds ([OrderedMap.ofList [("B", "2")], OrderedMap.ofList [("B", "3"), ("C", "4")]].mapM
          (writeSettings (.ofRoot [".env"]))) sampleDisk [1, 2]
        (outcome ([OrderedMap.ofList [("B", "2")], OrderedMap.ofList [("B", "3"), ("C", "4")]].mapM
          (writeSettings (.ofRoot [".env"]))) sampleDisk).2 :=
    Prod.ext (by cbv) rfl
  exact (writes_eq_write_of_merge isTarget_sampleDisk (by decide) (.inl (by decide +kernel)) hrun).1

end EnvFill.Project
