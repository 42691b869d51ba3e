import EnvFill.Fill.Coverage
import EnvFill.Proofs.FoundNames
import EnvFill.Proofs.ScanRoots

/-!
# Files with the same keys

Two settings files that differ only after the first `=` of their lines set the same keys, and name the
same variables. Whether a variable is set then depends on nothing but which values are blank.
-/

namespace EnvFill

theorem map_eq_of_forall₂ {α β γ : Type} {R : α → β → Prop} {f : α → γ} {g : β → γ} {items : List α}
    {others : List β} (hall : List.Forall₂ R items others) (heq : ∀ a b, R a b → f a = g b) :
    items.map f = others.map g := by
  induction hall with
  | nil => rfl
  | cons hab _ ih => rw [List.map_cons, List.map_cons, heq _ _ hab, ih]

end EnvFill

namespace EnvFill.EnvFile

open Text

variable {line other : List UInt8} {one two : List UInt8} {key : String}

/-- The lines are the same up to the first `=` and with it, if they are not the same altogether. -/
inductive SameKey : List UInt8 → List UInt8 → Prop where
  | refl (line : List UInt8) : SameKey line line
  | values {key : List UInt8} (hkey : equalsByte ∉ key) (value other : List UInt8) :
      SameKey (key ++ equalsByte :: value) (key ++ equalsByte :: other)

/-- The files are the same line by line but for what stands after the first `=`, and neither has a
zero or a carriage return. -/
structure SameKeys (one two : List UInt8) : Prop where
  lines : List.Forall₂ SameKey (splitAtEach (· == Byte.lf) one) (splitAtEach (· == Byte.lf) two)
  plain_left : 0 ∉ one ∧ Byte.cr ∉ one
  plain_right : 0 ∉ two ∧ Byte.cr ∉ two

def IsBlankIn (entries : Entries) (key : String) : Prop :=
  ∃ value, entries.get? key = some value ∧ isAllBlank value.toList = true

theorem SameKey.symm (hline : SameKey line other) : SameKey other line := by
  cases hline with
  | refl => exact .refl line
  | values hkey value other => exact .values hkey other value

theorem SameKeys.symm (hsame : SameKeys one two) : SameKeys two one where
  lines := hsame.lines.flip.imp fun _ _ hline => hline.symm
  plain_left := hsame.plain_right
  plain_right := hsame.plain_left

theorem SameKey.map_fst_settingOf? (hline : SameKey line other) :
    (settingOf? line).map Prod.fst = (settingOf? other).map Prod.fst := by
  cases hline with
  | refl => rfl
  | @values key hkey value other =>
    have hbefore : ∀ byte ∈ key, (byte == equalsByte) = false := by
      intro byte hbyte
      simpa using fun heq : byte = equalsByte => hkey (heq ▸ hbyte)
    have hcut : ∀ rest, cutAtFirst (· == equalsByte) (key ++ equalsByte :: rest) = some (key, rest) :=
      fun rest => cutAtFirst_append_cons hbefore (beq_self_eq_true _)
    rw [settingOf?_eq_bind, settingOf?_eq_bind, hcut, hcut, Option.bind_some, Option.bind_some,
      Option.map_map, Option.map_map]
    rfl

namespace SameKeys

variable (hsame : SameKeys one two)

include hsame

theorem map_byteLines : (byteLines one).map (fun line => (settingOf? line).map Prod.fst) =
    (byteLines two).map fun line => (settingOf? line).map Prod.fst := by
  rw [byteLines, byteLines, unifyLineEnds_of_cr_not_mem hsame.plain_left.2,
    unifyLineEnds_of_cr_not_mem hsame.plain_right.2]
  exact map_eq_of_forall₂ hsame.lines fun _ _ hline => hline.map_fst_settingOf?

theorem filterMap_byteLines {β : Type} (f : String → β) :
    (byteLines one).filterMap (fun line => ((settingOf? line).map Prod.fst).map f) =
      (byteLines two).filterMap fun line => ((settingOf? line).map Prod.fst).map f := by
  have hmap := congrArg (List.filterMap fun key : Option String => key.map f) hsame.map_byteLines
  rwa [List.filterMap_map, List.filterMap_map] at hmap

/-- Reading either file gives the same keys. -/
theorem mem_keys_ofBytes_iff :
    key ∈ (Entries.ofBytes one).keys ↔ key ∈ (Entries.ofBytes two).keys := by
  have hkeys := hsame.filterMap_byteLines id
  simp only [Option.map_id_fun, id_eq] at hkeys
  rw [ofBytes_eq, ofBytes_eq, OrderedMap.mem_keys_ofList, OrderedMap.mem_keys_ofList,
    List.map_filterMap, List.map_filterMap, hkeys]

/-- Either file names the same variables. -/
theorem variableKeys_eq : Project.variableKeys (Text.lines (Utf8.decodeLossy one)) =
    Project.variableKeys (Text.lines (Utf8.decodeLossy two)) := by
  have hkey : Line.key? ∘ Utf8.decodeLossy =
      fun line => ((settingOf? line).map Prod.fst).map String.toList := by
    funext line
    rw [Function.comp_apply, Project.key?_decodeLossy, Option.map_map]
    rfl
  unfold Project.variableKeys
  rw [filterMap_key?_decodeLossy (hasPairedReturns_of_cr_not_mem hsame.plain_left.2),
    filterMap_key?_decodeLossy (hasPairedReturns_of_cr_not_mem hsame.plain_right.2),
    List.filterMap_map, List.filterMap_map, hkey, hsame.filterMap_byteLines]

theorem keysNamed_eq : Project.keysNamed (some one) = Project.keysNamed (some two) := by
  have htext : ∀ bytes : List UInt8, 0 ∉ bytes → Project.looksLikeText bytes = true := by
    intro bytes hzero
    have htake : (0 : UInt8) ∉ bytes.take Project.sniffedBytes :=
      fun hmem => hzero (List.mem_of_mem_take hmem)
    simpa [Project.looksLikeText] using htake
  unfold Project.keysNamed
  dsimp only
  rw [htext one hsame.plain_left.1, htext two hsame.plain_right.1, if_pos rfl, if_pos rfl,
    hsame.variableKeys_eq]

end SameKeys

/-- Which variables are set depends on the keys and on which values are blank. -/
theorem isSet_congr {entries others : Entries} {name : String}
    (hkeys : name ∈ entries.keys ↔ name ∈ others.keys)
    (hblank : IsBlankIn entries name ↔ IsBlankIn others name) :
    Fill.isSet entries name = Fill.isSet others name := by
  have hset : ∀ map : Entries, Fill.isSet map name = true ↔ name ∈ map.keys ∧ ¬IsBlankIn map name := by
    intro map
    unfold Fill.isSet IsBlankIn
    cases hget : map.get? name with
    | none =>
      have habsent : name ∉ map.keys := by
        intro hname
        obtain ⟨value, hpair⟩ := OrderedMap.exists_mem_of_mem_keys hname
        rw [OrderedMap.get?_eq_some hpair] at hget
        exact Option.some_ne_none _ hget
      simp [habsent]
    | some value =>
      have hmem : name ∈ map.keys := List.mem_map_of_mem (OrderedMap.mem_of_get? hget)
      simp [hmem]
  rw [Bool.eq_iff_iff, hset, hset, hkeys, hblank]

end EnvFill.EnvFile
