import EnvFill.Proofs.EditedFiles
import EnvFill.Proofs.PossibleWrites

/-!
# What a template gets

A template gets the keys that it lacks, each once and without a value, below its last line that is not
blank. It then lacks none of them, so a second run adds nothing. Which keys it lacks is told by its settings,
read with stray bytes kept: a key with such a byte is none of those that are added.
-/

namespace EnvFill.EnvFile

open Text

variable {content : Option (List UInt8)} {line : List UInt8} {key : String}
  {keys missing : List String}

theorem nodup_eraseDups {α : Type} [DecidableEq α] (names : List α) : names.eraseDups.Nodup := by
  cases names with
  | nil => exact List.nodup_nil
  | cons first rest =>
    rw [List.eraseDups_cons, List.nodup_cons, List.mem_eraseDups]
    exact ⟨by simp, nodup_eraseDups _⟩
  termination_by names.length
  decreasing_by
    have hle := List.length_filter_le (fun name => !name == first) rest
    rw [List.length_cons]
    omega

/-! ### The settings of a template -/

def templateSetting? (line : List UInt8) : Option (List Glyph × List Glyph) :=
  (Line.split? (Utf8.decode line)).map fun (key, value) => (key, Value.unquote value)

/-- The settings of a template that may not be there. Stray bytes stay in them. -/
def templateSettings (content : Option (List UInt8)) : OrderedMap (List Glyph) (List Glyph) :=
  OrderedMap.ofList ((linesOf content).filterMap templateSetting?)

/-- The keys that are not among the settings of a template, each where it first comes. -/
def newKeys (content : Option (List UInt8)) (keys : List String) : List String :=
  (keys.filter fun key => glyphs key ∉ (templateSettings content).keys).eraseDups

theorem keyOf?_eq_map (line : List UInt8) : keyOf? line = (templateSetting? line).map Prod.fst := by
  unfold keyOf? Line.key? templateSetting?
  rw [Option.map_map]
  rfl

theorem mem_filterMap_keyOf?_iff {found : List Glyph} :
    found ∈ (linesOf content).filterMap keyOf? ↔ found ∈ (templateSettings content).keys := by
  rw [templateSettings, OrderedMap.mem_keys_ofList, List.map_filterMap]
  simp only [keyOf?_eq_map]

theorem missingKeys_eq (content : Option (List UInt8)) (keys : List String) :
    missingKeys content keys = newKeys content keys := by
  have habsent : (keys.filter fun key => !((linesOf content).filterMap keyOf?).contains (glyphs key)) =
      keys.filter fun key => glyphs key ∉ (templateSettings content).keys := by
    refine List.filter_congr fun key _ => ?_
    rw [Bool.eq_iff_iff, decide_eq_true_iff, ← mem_filterMap_keyOf?_iff]
    simp
  unfold missingKeys
  dsimp only
  rw [foldl_addNew_eq, habsent, newKeys]
  simp

theorem mem_newKeys_iff :
    key ∈ newKeys content keys ↔ key ∈ keys ∧ glyphs key ∉ (templateSettings content).keys := by
  rw [newKeys, List.mem_eraseDups, List.mem_filter]
  simp

theorem newKeys_eq_nil_iff :
    newKeys content keys = [] ↔ ∀ key ∈ keys, glyphs key ∈ (templateSettings content).keys := by
  simp only [List.eq_nil_iff_forall_not_mem, mem_newKeys_iff, not_and, not_not]

theorem templateSetting?_of_keyless (hline : keyOf? line = none) : templateSetting? line = none := by
  rwa [keyOf?_eq_map, Option.map_eq_none_iff] at hline

theorem templateSetting?_nil : templateSetting? [] = none :=
  templateSetting?_of_keyless (keyOf?_of_equals_not_mem List.not_mem_nil)

theorem templateSetting?_keyLine (hkey : IsWritableKey key) :
    templateSetting? (keyLine key) = some (glyphs key, []) := by
  have hcut : cutAtFirst (Character.is '=') (Utf8.decode (keyLine key)) = some (glyphs key, []) := by
    rw [keyLine, Utf8.decode_encodeText, List.map_append]
    refine cutAtFirst_append_cons ?_ (by decide)
    intro glyph hglyph
    obtain ⟨c, hc, rfl⟩ := List.mem_map.mp hglyph
    have hne : c ≠ '=' := fun heq => hkey.equals_not_mem (heq ▸ hc)
    simpa [Character.is, Character.char?] using hne
  rw [templateSetting?, Line.split?_eq, hcut, Option.bind_some, glyphs,
    Line.keyIn?_map (f := Glyph.char) (fun _ => rfl), hkey.keyIn?_eq]
  rfl

/-! ### Keys are added -/

theorem filterMap_templateTop (content : Option (List UInt8)) :
    (templateTop content).filterMap templateSetting? = (linesOf content).filterMap templateSetting? := by
  cases content with
  | none =>
    have hall : ∀ line ∈ templateTop none, equalsByte ∉ line := by decide
    exact List.filterMap_eq_nil_iff.mpr fun line hline =>
      templateSetting?_of_keyless (keyOf?_of_equals_not_mem (hall line hline))
  | some bytes =>
    obtain ⟨blank, hlines, hblank⟩ := exists_append_dropEndWhile isBlankLine (byteLines bytes)
    have hnone : blank.filterMap templateSetting? = [] := List.filterMap_eq_nil_iff.mpr fun line hline =>
      templateSetting?_of_keyless (keyOf?_of_isBlankLine (hblank line hline))
    rw [linesOf]
    conv_rhs => rw [hlines, List.filterMap_append, hnone, List.append_nil]
    rfl

section NewKeys

variable (hmissing : ∀ key ∈ missing, IsWritableKey key)

include hmissing

theorem filterMap_newKeyLines (above : List (List UInt8)) :
    (newKeyLines above missing).filterMap templateSetting? =
      missing.map fun key => (glyphs key, []) := by
  have hdivider : (if above.isEmpty then [] else [[]] : List (List UInt8)).filterMap templateSetting? =
      [] := by
    split
    · rfl
    · exact List.filterMap_cons_none templateSetting?_nil
  have hkeys : missing.filterMap (templateSetting? ∘ keyLine) =
      missing.filterMap (some ∘ fun key => (glyphs key, [])) :=
    List.filterMap_congr fun key hkey => templateSetting?_keyLine (hmissing key hkey)
  rw [newKeyLines, List.filterMap_append, hdivider, List.nil_append, List.filterMap_map, hkeys,
    List.filterMap_eq_map]

/-- The settings of a template with new keys. -/
theorem templateSettings_addKeys (hnodup : missing.Nodup)
    (habsent : ∀ key ∈ missing, glyphs key ∉ (templateSettings content).keys) :
    (templateSettings (some (addKeys content missing))).toList =
      (templateSettings content).toList ++ missing.map fun key => (glyphs key, []) := by
  let added : List (List Glyph × List Glyph) := missing.map fun key => (glyphs key, [])
  have hlines : (linesOf (some (addKeys content missing))).filterMap templateSetting? =
      (linesOf content).filterMap templateSetting? ++ added := by
    rw [linesOf, addKeys_eq, byteLines_joinByteLines fun _ => isFileLine_of_mem_addKeys hmissing,
      filterMap_writtenLines_append templateSetting?_nil, List.filterMap_append, filterMap_templateTop,
      filterMap_newKeyLines hmissing]
  have hfresh : ∀ pair ∈ added, pair.1 ∉ (templateSettings content).keys := by
    intro pair hpair
    obtain ⟨key, hkey, rfl⟩ := List.mem_map.mp hpair
    exact habsent key hkey
  have hdistinct : (added.map Prod.fst).Nodup := by
    rw [List.map_map]
    exact hnodup.map glyphs_injective
  rw [templateSettings, hlines, OrderedMap.ofList, OrderedMap.insertMany_append, ← OrderedMap.ofList,
    ← templateSettings]
  exact OrderedMap.toList_insertMany_of_fresh hdistinct hfresh

end NewKeys

/-- No key is missing from a template that they were added to. -/
theorem newKeys_of_addKeys (hkeys : ∀ key ∈ keys, IsWritableKey key) {more : List String}
    (hmore : more ⊆ keys) : newKeys (some (addKeys content (newKeys content keys))) more = [] := by
  have hmissing : ∀ key ∈ newKeys content keys, IsWritableKey key :=
    fun key hkey => hkeys key (mem_newKeys_iff.mp hkey).1
  have hsettings : (templateSettings (some (addKeys content (newKeys content keys)))).toList =
      (templateSettings content).toList ++ (newKeys content keys).map fun key => (glyphs key, []) :=
    templateSettings_addKeys hmissing (nodup_eraseDups _) fun key hkey => (mem_newKeys_iff.mp hkey).2
  rw [newKeys_eq_nil_iff]
  intro key hkey
  rw [OrderedMap.keys, hsettings, List.map_append, List.mem_append]
  by_cases hold : glyphs key ∈ (templateSettings content).keys
  · exact .inl hold
  · have hnew : key ∈ newKeys content keys := mem_newKeys_iff.mpr ⟨hmore hkey, hold⟩
    exact .inr (List.mem_map.mpr ⟨_, List.mem_map_of_mem hnew, rfl⟩)

end EnvFill.EnvFile

namespace EnvFill.Project

open Storage EnvFile Text Node

variable {disk after : Disk} {path file : Pathname} {place : Location} {content : Option (List UInt8)}
  {bytes : List UInt8} {keys : List String} {count : Nat}

theorem succeeds_syncTemplate_iff (hplace : disk.resolve file = .ok place) :
    Succeeds (syncTemplate file keys) disk count after ↔
      ∃ content, contentAt disk (.ofRoot place) = .ok content ∧
        count = (newKeys content keys).length ∧
          (newKeys content keys = [] ∧ after = disk ∨
            newKeys content keys ≠ [] ∧
              Succeeds (writeWhole (.ofRoot place) (addKeys content (newKeys content keys))) disk ()
                after) := by
  simp only [syncTemplate, succeeds_bind_iff, Edit.succeeds_look_iff, hplace, followed_eq_ok_iff]
  constructor
  · rintro ⟨_, _, ⟨hfound, rfl⟩, content, _, ⟨hread, rfl⟩, hadd⟩
    obtain rfl := Except.ok.inj hfound
    refine ⟨content, hread, ?_⟩
    rw [← missingKeys_eq]
    split at hadd
    · rename_i hnone
      obtain ⟨rfl, rfl⟩ := succeeds_pure_iff.mp hadd
      exact ⟨by rw [hnone]; rfl, .inl ⟨hnone, rfl⟩⟩
    · rename_i hsome
      obtain ⟨_, _, hwhole, hcount⟩ := succeeds_bind_iff.mp hadd
      obtain ⟨rfl, rfl⟩ := succeeds_pure_iff.mp hcount
      exact ⟨rfl, .inr ⟨hsome, hwhole⟩⟩
  · rintro ⟨content, hread, rfl, hadd⟩
    refine ⟨place, disk, ⟨rfl, rfl⟩, content, disk, ⟨hread, rfl⟩, ?_⟩
    rw [missingKeys_eq]
    split
    · rename_i hnone
      rw [hnone] at hadd ⊢
      obtain ⟨-, rfl⟩ | ⟨hsome, -⟩ := hadd
      · exact succeeds_pure_iff.mpr ⟨rfl, rfl⟩
      · exact absurd rfl hsome
    · rename_i hsome
      obtain ⟨hnone, -⟩ | ⟨-, hwhole⟩ := hadd
      · exact absurd hnone hsome
      · exact succeeds_bind_iff.mpr ⟨(), after, hwhole, succeeds_pure_iff.mpr ⟨rfl, rfl⟩⟩

/-- What is read of a file is its content. -/
theorem IsTarget.eq_some_of_contentAt (htarget : IsTarget disk path place content)
    (hread : contentAt disk (.ofRoot place) = .ok (some bytes)) : content = some bytes := by
  obtain ⟨found, hfound, hbytes⟩ := except_bind_eq_ok_iff.mp hread
  have hsome : ∃ node, found = some node := by
    cases found with
    | none => cases hbytes
    | some node => exact ⟨node, rfl⟩
  obtain ⟨node, rfl⟩ := hsome
  obtain ⟨read, hplace, hnode⟩ := except_map_eq_ok_iff.mp (followed_eq_ok_iff.mp hfound)
  obtain ⟨_, rfl, -⟩ := Option.bind_eq_some_iff.mp hnode
  have htext := (Disk.locate?_eq_ok_iff.mp (Disk.findPlace_eq_some_iff.mp hplace)).1
  exact (htarget.contentAt_eq htext hread).symm

/-- What is read of a file that was written. -/
theorem IsTarget.contentAt_put (htarget : IsTarget disk path place content)
    (hwritable : IsWritable place disk) (bytes : List UInt8) :
    contentAt (disk.put place (.file bytes)) (.ofRoot place) = .ok (some bytes) := by
  have hafter := htarget.put hwritable bytes
  obtain ⟨found, hfind⟩ := exists_find_eq_ok hafter.isName hafter.linkFree hwritable.text hwritable.short
  have hnode := Disk.find_ofRoot hafter.isName hafter.linkFree hfind hwritable.text
  rw [hafter.content_eq] at hnode
  unfold contentAt
  rw [hfind, hnode]
  rfl

/-- **A template gets the keys that it lacks, without values and once.** The count is theirs. If there are
none, nothing is written; otherwise they follow what was there, up to the last line that is not blank. After
that none of them is missing. -/
theorem IsTarget.syncTemplate_adds_missing_keys (htarget : IsTarget disk path place content)
    (hkeys : ∀ key ∈ keys, IsWritableKey key)
    (hsync : Succeeds (syncTemplate path keys) disk count after) :
    count = (newKeys content keys).length ∧
      (newKeys content keys = [] → after = disk) ∧
      (newKeys content keys ≠ [] → ∃ bytes, after = disk.put place (.file bytes) ∧
        bytes = endEach Byte.lf
          (templateTop content ++ newKeyLines (templateTop content) (newKeys content keys)) ∧
        (templateSettings (some bytes)).toList =
          (templateSettings content).toList ++
            (newKeys content keys).map fun key => (glyphs key, [])) ∧
      ∀ more ⊆ keys, Succeeds (syncTemplate path more) after 0 after := by
  have hmissing : ∀ key ∈ newKeys content keys, IsWritableKey key :=
    fun key hkey => hkeys key (mem_newKeys_iff.mp hkey).1
  obtain ⟨read, hread, rfl, ⟨hnone, rfl⟩ | ⟨hsome, hwrite⟩⟩ :=
    (succeeds_syncTemplate_iff htarget.resolve_eq).mp hsync
  · have hsame : newKeys content keys = [] := by
      cases read with
      | none =>
        have hnil : keys = [] := List.eq_nil_iff_forall_not_mem.mpr fun key hkey =>
          absurd (newKeys_eq_nil_iff.mp hnone key hkey) List.not_mem_nil
        rw [hnil]
        rfl
      | some bytes => rw [htarget.eq_some_of_contentAt hread, hnone]
    refine ⟨by rw [hnone, hsame], fun _ => rfl, fun hne => absurd hsame hne, fun more hmore => ?_⟩
    have hlater : newKeys read more = [] :=
      newKeys_eq_nil_iff.mpr fun key hkey => newKeys_eq_nil_iff.mp hnone key (hmore hkey)
    refine (succeeds_syncTemplate_iff htarget.resolve_eq).mpr ⟨read, hread, ?_, .inl ⟨hlater, rfl⟩⟩
    rw [hlater, List.length_nil]
  · obtain ⟨hwritable, rfl⟩ :=
      succeeds_replaceFile htarget.isName htarget.linkFree (succeeds_writeWhole_iff.mp hwrite)
    obtain rfl := htarget.contentAt_eq hwritable.text hread
    refine ⟨rfl, fun hnone => absurd hnone hsome, fun _ => ⟨_, rfl, addKeys_eq_endEach hmissing hsome, ?_⟩,
      fun more hmore => ?_⟩
    · exact templateSettings_addKeys hmissing (nodup_eraseDups _) fun key hkey => (mem_newKeys_iff.mp hkey).2
    · have hadded : newKeys (some (addKeys read (newKeys read keys))) more = [] :=
        newKeys_of_addKeys hkeys hmore
      refine (succeeds_syncTemplate_iff (htarget.put hwritable _).resolve_eq).mpr
        ⟨_, htarget.contentAt_put hwritable _, ?_, .inl ⟨hadded, rfl⟩⟩
      rw [hadded, List.length_nil]

/-- A template with ends of two kinds, a stray byte in its second key, and blank lines at its end. -/
def strayTemplate : List UInt8 :=
  [0x41, 0x3D, 0x31, 0x0D, 0x0A, 0x42, 0xFF, 0x3D, 0x32, 0x0A, 0x20, 0x0A, 0x0A]

/-- The key that differs in the stray byte is missing, and so is the one that nothing is like. -/
theorem syncTemplate_adds_missing_keys_of_strayTemplate :
    newKeys (some strayTemplate) ["B", "A", "C", "B"] = ["B", "C"] ∧
      ∃ after,
        Succeeds (syncTemplate (.ofRoot ["app", ".env.example"]) ["B", "A", "C", "B"])
          (projectDisk [(".env.example", .file strayTemplate)]) 2 after ∧
        Succeeds (syncTemplate (.ofRoot ["app", ".env.example"]) ["C", "A"]) after 0 after := by
  have hnew : newKeys (some strayTemplate) ["B", "A", "C", "B"] = ["B", "C"] := by decide +kernel
  have hroom : HasRoomFor ["app"] ".env.example" := by decide
  have hfolder : IsFolder (projectDisk [(".env.example", .file strayTemplate)]) ["app"]
      [(".env.example", .file strayTemplate)] := isFolder_projectDisk rfl
  have hcontent : [(".env.example", Node.file strayTemplate)].lookup ".env.example" =
      (some strayTemplate).map .file := rfl
  have htarget : IsTarget (projectDisk [(".env.example", .file strayTemplate)])
      (.ofRoot ["app", ".env.example"]) ["app", ".env.example"] (some strayTemplate) :=
    isTarget_of_isFolder hfolder hroom.isName hroom.zero_not_mem hcontent
  obtain ⟨count, after, hsync⟩ : ∃ count after,
      Succeeds (syncTemplate (.ofRoot ["app", ".env.example"]) ["B", "A", "C", "B"])
        (projectDisk [(".env.example", .file strayTemplate)]) count after :=
    exists_succeeds_syncTemplate_of_isFolder hfolder hroom hcontent _
  obtain ⟨hcount, -, -, hlater⟩ := htarget.syncTemplate_adds_missing_keys (by decide) hsync
  rw [hnew] at hcount
  obtain rfl : count = 2 := hcount
  exact ⟨hnew, after, hsync, hlater ["C", "A"] (by decide)⟩

end EnvFill.Project
