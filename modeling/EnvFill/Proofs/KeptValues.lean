import EnvFill.Proofs.EditedFiles
import EnvFill.Proofs.ProperPlaces
import EnvFill.Proofs.ReadWrites
import EnvFill.Proofs.SavedAnswers
import EnvFill.Proofs.ScanRoots

/-!
# Values that are kept

An empty line keeps the value that a variable has, as if that had been typed. So a value that reads as a
command is not kept: it is obeyed. What is kept is saved once more. This may change the file, but nothing of
what is read from it, since all lines of the key are brought up to the last one, which counts.
-/

namespace EnvFill.OrderedMap

variable {κ ν : Type} [DecidableEq κ] {map : OrderedMap κ ν} {key : κ} {value : ν}
  {pairs : List (κ × ν)}

/-- Giving a key the value that it has changes nothing. -/
theorem insert_eq_self (hget : map.get? key = some value) : map.insert key value = map := by
  have hkey : key ∈ map.keys := List.mem_map_of_mem (mem_of_get? hget)
  refine ext ?_
  rw [toList_insert, putPair_of_mem map.nodup_keys hkey, map_eq_self]
  intro pair hpair
  split
  · rename_i heq
    have hvalue := get?_eq_some hpair
    rw [heq, hget] at hvalue
    rw [Option.some.inj hvalue]
  · rfl

theorem insertMany_eq_self (hpairs : ∀ pair ∈ pairs, map.get? pair.1 = some pair.2) :
    map.insertMany pairs = map := by
  induction pairs with
  | nil => rfl
  | cons pair rest ih =>
    rw [insertMany_cons, insert_eq_self (hpairs pair List.mem_cons_self)]
    exact ih fun other hother => hpairs other (List.mem_cons_of_mem pair hother)

theorem get?_ofList_concat (pairs : List (κ × ν)) (pair : κ × ν) (key : κ) :
    (ofList (pairs ++ [pair])).get? key =
      if key = pair.1 then some pair.2 else (ofList pairs).get? key := by
  rw [ofList, insertMany_append]
  exact get?_insert _ pair.1 key pair.2

theorem mem_of_get?_ofList (hget : (ofList pairs).get? key = some value) : (key, value) ∈ pairs := by
  induction pairs using List.reverseRecOn with
  | nil => cases hget
  | append_singleton front pair ih =>
    rw [get?_ofList_concat] at hget
    split at hget
    · rename_i heq
      obtain rfl := Option.some.inj hget
      exact heq ▸ List.mem_append_right front (List.mem_singleton_self pair)
    · exact List.mem_append_left _ (ih hget)

section Updates

variable {α : Type} {f g : α → Option (κ × ν)} {items : List α}
  (hupdates : ∀ a ∈ items, g a = f a ∨ ∃ old, f a = some (key, old) ∧ g a = some (key, value))
  (hget : (ofList (items.filterMap f)).get? key = some value)

include hupdates hget

/-- The last value of a key stays the last if others are brought up to it. -/
theorem get?_ofList_filterMap_of_updates : (ofList (items.filterMap g)).get? key = some value := by
  induction items using List.reverseRecOn with
  | nil => exact hget
  | append_singleton front a ih =>
    have hfront := ih fun other hother => hupdates other (List.mem_append_left _ hother)
    rw [List.filterMap_append] at hget ⊢
    rcases hupdates a (by simp) with hsame | ⟨old, -, hnew⟩
    · cases hlast : f a with
      | none =>
        rw [List.filterMap_cons_none hlast, List.filterMap_nil, List.append_nil] at hget
        rw [List.filterMap_cons_none (hsame.trans hlast), List.filterMap_nil, List.append_nil]
        exact hfront hget
      | some pair =>
        rw [List.filterMap_cons_some hlast, List.filterMap_nil, get?_ofList_concat] at hget
        rw [List.filterMap_cons_some (hsame.trans hlast), List.filterMap_nil, get?_ofList_concat]
        split
        · rwa [if_pos ‹_›] at hget
        · rw [if_neg ‹_›] at hget
          exact hfront hget
    · rw [List.filterMap_cons_some hnew, List.filterMap_nil, get?_ofList_concat, if_pos rfl]

/-- Bringing the values of a key up to its last one changes nothing. -/
theorem ofList_filterMap_of_updates : ofList (items.filterMap g) = ofList (items.filterMap f) := by
  have hother := get?_ofList_filterMap_of_updates hupdates hget
  have hvalues : ∀ pairs : List (κ × ν), (ofList pairs).get? key = some value →
      ((ofList pairs).toList.map fun pair => (pair.1, if pair.1 = key then value else pair.2)) =
        (ofList pairs).toList := by
    intro pairs hvalue
    rw [← putPair_of_mem (ofList pairs).nodup_keys (List.mem_map_of_mem (mem_of_get? hvalue)),
      ← toList_insert, insert_eq_self hvalue]
  have hsame : ((items.filterMap g).map fun pair => (pair.1, if pair.1 = key then value else pair.2)) =
      (items.filterMap f).map fun pair => (pair.1, if pair.1 = key then value else pair.2) := by
    rw [List.map_filterMap, List.map_filterMap]
    refine List.filterMap_congr fun a ha => ?_
    rcases hupdates a ha with heq | ⟨old, hold, hnew⟩
    · rw [heq]
    · rw [hold, hnew]
      simp
  refine ext ?_
  rw [← hvalues _ hother, ← hvalues _ hget,
    ← toList_ofList_map (fun name old => if name = key then value else old), hsame,
    toList_ofList_map (fun name old => if name = key then value else old)]

end Updates

end EnvFill.OrderedMap

namespace EnvFill.EnvFile

open Text

theorem Value.mem_unescape {value : List Char} {c : Char} (hc : c ∈ unescape value) :
    c ∈ value ∨ c = '\n' := by
  fun_induction unescape value <;> simp_all [Character.ofChar] <;> tauto

/-- Reading a value adds no character but line feeds. -/
theorem Value.mem_unquote {value : List Char} {c : Char} (hc : c ∈ unquote value) :
    c ∈ value ∨ c = '\n' := by
  have hinner : ∀ {d : Char}, d ∈ value.tail.dropLast → d ∈ value :=
    fun hd => List.mem_of_mem_tail (List.mem_of_mem_dropLast hd)
  unfold unquote at hc
  split at hc
  · exact (Value.mem_unescape hc).imp_left hinner
  split at hc
  · exact .inl (hinner hc)
  · exact .inl hc

variable {content : Option (List UInt8)} {line : List UInt8} {key value : String}

/-- A setting that is read from a file can be written as it is. -/
theorem isWritableKey_of_settingOf? (hline : IsFileLine line)
    (hsetting : settingOf? line = some (key, value)) : IsWritableKey key ∧ '\r' ∉ value.toList := by
  obtain ⟨⟨text, raw⟩, hsplit, hpair⟩ := Option.map_eq_some_iff.mp hsetting
  obtain ⟨rfl, rfl⟩ := Prod.mk.inj hpair
  have hfree : ∀ byte : UInt8, byte < 128 → byte ∉ line →
      Char.ofUInt8 byte ∉ text ∧ Char.ofUInt8 byte ∉ raw := by
    intro byte hascii hbyte
    rw [← Utf8.mem_decodeLossy_iff hascii] at hbyte
    exact ⟨fun hmem => hbyte (Line.mem_of_split? hsplit (.inl hmem)),
      fun hmem => hbyte (Line.mem_of_split? hsplit (.inr hmem))⟩
  obtain ⟨hlf, -⟩ := hfree Byte.lf (by decide) hline.1
  obtain ⟨hcr, hcrRaw⟩ := hfree Byte.cr (by decide) hline.2
  have hkey := Line.isKey_of_split? hsplit
  constructor
  · refine ⟨?_, ?_, ?_, ?_, ?_, ?_⟩ <;> rw [String.toList_ofList]
    · exact hkey.ne_nil
    · exact hkey.equals_not_mem
    · exact hcr
    · exact hlf
    · exact hkey.strip_eq
    · exact hkey.not_comment
  · rw [String.toList_ofList]
    intro hmem
    rcases Value.mem_unquote hmem with hmem | hmem
    · exact hcrRaw hmem
    · exact absurd hmem (by decide)

/-- A line that is edited as one of a key is read as one of the key. -/
theorem exists_settingOf?_of_keyOf? (hkey : keyOf? line = some (glyphs key)) :
    ∃ old, settingOf? line = some (key, old) := by
  have hplain : HasPlainKey line := by
    intro parts hparts
    rw [keyOf?_eq_bind, Option.mem_def.mp hparts, Option.bind_some] at hkey
    obtain ⟨hstrip, -⟩ := Line.keyIn?_eq_some_iff.mp hkey
    have hchars : ∀ glyph ∈ Utf8.decode parts.1, glyph ∈ Set.range Glyph.char := by
      intro glyph hglyph
      rcases mem_strip_or_blank hglyph with hmem | hblank
      · rw [hstrip] at hmem
        obtain ⟨c, -, hc⟩ := List.mem_map.mp hmem
        exact ⟨c, hc⟩
      · cases glyph with
        | char c => exact ⟨c, rfl⟩
        | stray byte => cases hblank
    obtain ⟨text, htext⟩ := (Set.range_list_map Glyph.char).ge hchars
    rw [Utf8.decodeStrict?_eq_some_iff.mpr htext.symm]
    rfl
  rw [keyOf?_eq_of_plainKey hplain] at hkey
  obtain ⟨⟨name, old⟩, hsetting, hname⟩ := Option.map_eq_some_iff.mp hkey
  exact ⟨old, glyphs_injective hname ▸ hsetting⟩

/-- **Writing what is read changes nothing.** The file may change, but not what is read from it. -/
theorem settingsOf_setEntries_of_get? (hget : (settingsOf content).get? key = some value) :
    settingsOf (some (setEntries (OrderedMap.ofList [(key, value)]) content)) = settingsOf content := by
  rw [settingsOf_eq] at hget
  obtain ⟨line, hline, hsetting⟩ := List.mem_filterMap.mp (OrderedMap.mem_of_get?_ofList hget)
  obtain ⟨hkey, hcr⟩ := isWritableKey_of_settingOf? (isFileLine_of_mem_linesOf hline) hsetting
  have hkeys : HasWritableKeys (OrderedMap.ofList [(key, value)]) := hasWritableKeys_singleton hkey
  have hvalues : HasFileValues (OrderedMap.ofList [(key, value)]) := List.forall_mem_singleton.mpr hcr
  have hupdates : ∀ line ∈ linesOf content,
      (settingOf? ∘ updateLine (OrderedMap.ofList [(key, value)])) line = settingOf? line ∨
        ∃ old, settingOf? line = some (key, old) ∧
          (settingOf? ∘ updateLine (OrderedMap.ofList [(key, value)])) line = some (key, value) := by
    intro line _
    rcases updateLine_cases (OrderedMap.ofList [(key, value)]) line with
      ⟨name, text, hpair, hname, hline⟩ | ⟨-, hline⟩
    · obtain ⟨rfl, rfl⟩ := Prod.mk.inj (List.mem_singleton.mp hpair)
      obtain ⟨old, hold⟩ := exists_settingOf?_of_keyOf? hname
      exact .inr ⟨old, hold, by rw [Function.comp_apply, hline, settingOf?_settingLine hkey]⟩
    · exact .inl (by rw [Function.comp_apply, hline])
  have hlines := OrderedMap.ofList_filterMap_of_updates hupdates hget
  have hadded : ∀ pair ∈ absentFrom (linesOf content) (OrderedMap.ofList [(key, value)]),
      (OrderedMap.ofList ((linesOf content).filterMap settingOf?)).get? pair.1 = some pair.2 := by
    intro pair hpair
    rw [List.mem_singleton.mp (mem_absentFrom.mp hpair).1]
    exact hget
  rw [settingsOf_setEntries_eq hkeys hvalues, OrderedMap.ofList, OrderedMap.insertMany_append,
    ← OrderedMap.ofList, hlines, OrderedMap.insertMany_eq_self hadded, settingsOf_eq]

end EnvFill.EnvFile

namespace EnvFill.Screen

open Dialogue EnvFile Fill

variable {question : Question} {terminal later : Terminal} {text : String} {rest : List String}
  {response : Response}

/-- A text that is taken for a command, or a call for help or for the list, where a value is asked
for. -/
def IsCommandText (text : String) : Prop :=
  commandWord text ∈ ["help", "?", "list"] ∨ commandWord text ∈ Command.words.map Prod.fst

instance : DecidablePred IsCommandText := fun text =>
  inferInstanceAs (Decidable (commandWord text ∈ ["help", "?", "list"] ∨
    commandWord text ∈ Command.words.map Prod.fst))

theorem parse?_eq_none_iff : Command.parse? text = none ↔ commandWord text ∉ Command.words.map Prod.fst := by
  unfold Command.parse?
  generalize Command.words = words
  simp only [List.lookup_eq_none_iff, List.mem_map, not_exists, not_and]
  grind

/-- A value that is given at once is none that is taken for a command. -/
theorem not_isCommandText_of_askValueOnce
    (hask : Succeeds (askValueOnce question) terminal (some (.value text)) later) :
    ¬IsCommandText text := by
  obtain ⟨-, hhelp, hparse⟩ := answer_of_askValueOnce hask
  exact not_or.mpr ⟨hhelp, parse?_eq_none_iff.mp hparse⟩

/-- What is answered after a single line was answered in the first attempt. -/
theorem succeeds_of_untilAnswered {α : Type} {attempt : Dialogue (Option α)} {a : α}
    (hreads : Reads 1 attempt) (hrun : Succeeds (untilAnswered attempt) terminal a later)
    (hlines : terminal.input.length ≤ later.input.length + 1) :
    Succeeds attempt terminal (some a) later := by
  obtain ⟨_, _, hget, hrounds⟩ := succeeds_bind_iff.mp hrun
  obtain ⟨rfl, rfl⟩ := succeeds_get_iff.mp hget
  obtain ⟨answer, middle, hattempt, hrest⟩ := succeeds_bind_iff.mp hrounds
  cases answer with
  | some b =>
    obtain ⟨rfl, rfl⟩ := succeeds_pure_iff.mp hrest
    exact hattempt
  | none =>
    have hfirst := hreads hattempt
    have hlater := reads_repeated hreads _ hrest
    omega

/-- **An empty line keeps the value that there is**, at once, just if the value is not taken for a
command. -/
theorem succeeds_askValue_current_iff (hinput : terminal.input = "" :: rest) :
    (∃ later, Succeeds (askValue question) terminal (.value question.current) later ∧
      later.input = rest) ↔ ¬IsCommandText question.current := by
  constructor
  · rintro ⟨later, hask, rfl⟩
    obtain ⟨_, headed, hheading, hcard⟩ := succeeds_bind_iff.mp hask
    obtain ⟨_, shown, hdisplay, hanswer⟩ := succeeds_bind_iff.mp hcard
    have hheaded := reads_showHeading question.key hheading
    have hshown := reads_display _ hdisplay
    have hone : shown.input.length ≤ later.input.length + 1 := by
      rw [hinput, List.length_cons] at hheaded
      omega
    exact not_isCommandText_of_askValueOnce
      (succeeds_of_untilAnswered (reads_askValueOnce question) hanswer hone)
  · intro hvalue
    obtain ⟨hhelp, hword⟩ := not_or.mp hvalue
    exact exists_succeeds_askValue hinput rfl hhelp (parse?_eq_none_iff.mpr hword)

end EnvFill.Screen

namespace EnvFill.Project

open Storage EnvFile

variable {disk after : Disk} {target : Location} {settings : Entries} {key value : String} {count : Nat}

/-- A file that settings are read from is there. -/
theorem exists_isTarget_of_readSettings (hproper : IsProperPlace disk target)
    (hread : readSettings disk (.ofRoot target) = .ok settings) (hget : settings.get? key = some value) :
    ∃ bytes, IsTarget disk (.ofRoot target) target (some bytes) ∧ settings = settingsOf (some bytes) := by
  obtain ⟨found, hfound, hsettings⟩ := except_bind_eq_ok_iff.mp hread
  cases found with
  | none =>
    obtain rfl := Except.ok.inj hsettings
    cases hget
  | some bytes =>
    obtain ⟨goal, hgoal, hfile⟩ := Disk.bytes?_eq_some_iff.mp (followed_eq_ok_iff.mp hfound)
    obtain ⟨-, rfl, -⟩ := (Disk.locate?_ofRoot_eq_ok_iff hproper.names hproper.free).mp hgoal
    exact ⟨bytes, ⟨Disk.resolve_ofRoot hproper.names hproper.free hproper.zero, hproper.free, hfile⟩,
      (Except.ok.inj hsettings).symm⟩

/-- What is read of a file that was written. -/
theorem IsTarget.readSettings_put {content : Option (List UInt8)}
    (htarget : IsTarget disk (.ofRoot target) target content) (hwritable : IsWritable target disk)
    (bytes : List UInt8) :
    readSettings (disk.put target (.file bytes)) (.ofRoot target) = .ok (settingsOf (some bytes)) := by
  have hafter := htarget.put hwritable bytes
  have hlocate : (disk.put target (.file bytes)).locate? (.ofRoot target) = .ok target :=
    (Disk.locate?_ofRoot_eq_ok_iff hafter.isName hafter.linkFree).mpr
      ⟨hwritable.text, rfl, hwritable.short, .inr (Option.isSome_of_eq_some hafter.content_eq)⟩
  exact readSettings_of_bytes (Disk.bytes?_eq_some_iff.mpr ⟨target, hlocate, hafter.content_eq⟩)

/-- **A write of a setting as it is read changes none.** -/
theorem readSettings_of_writeSettings_of_get? (hproper : IsProperPlace disk target)
    (hread : readSettings disk (.ofRoot target) = .ok settings) (hget : settings.get? key = some value)
    (hwrite : Succeeds (writeSettings (.ofRoot target) (OrderedMap.ofList [(key, value)])) disk count
      after) :
    IsProperPlace after target ∧ readSettings after (.ofRoot target) = .ok settings := by
  obtain ⟨bytes, htarget, rfl⟩ := exists_isTarget_of_readSettings hproper hread hget
  obtain ⟨hwritable, -, rfl⟩ := htarget.writeSettings_eq hwrite
  refine ⟨⟨hproper.names, (htarget.put hwritable _).linkFree, hproper.zero⟩, ?_⟩
  rw [htarget.readSettings_put hwritable, settingsOf_setEntries_of_get? hget]

end EnvFill.Project

namespace EnvFill.Command

open Procedure Storage EnvFile Fill Project Screen

variable {names : List String} {found : Found} {target : Location} {session last : Session}
  {world after : World} {key value : String} {existing settings : Entries} {response : Response}
  {answers : List Response} {rest : List String}

/-- What is read from the file is `settings`, and the file lies where a path can lead. -/
structure IsRead (target : Location) (settings : Entries) (world : World) : Prop where
  proper : IsProperPlace world.disk target
  read : readSettings world.disk (.ofRoot target) = .ok settings

/-- In memory and in the file, `value` is the present value of the variable. -/
structure IsCurrent (settings existing : Entries) (key value : String) : Prop where
  file : settings.get? key = some value
  memory : existing.get? key = some value

section Round

variable (hcurrent : IsCurrent settings session.existing key value)

include hcurrent

/-- The question about a variable offers its present value. -/
theorem IsCurrent.current_question : (session.question names found key).current = value := by
  rw [Session.question, hcurrent.memory, Option.getD_some]

/-- An empty line answers with the present value. -/
theorem IsCurrent.response_eq (hvalue : ¬IsCommandText value) (hinput : world.terminal.input = "" :: rest)
    (hanswer : Session.Answers names found (fun question => talk (askValue question)) (save target found)
      session world key response existing after) :
    response = .value value ∧ after.terminal.input = rest := by
  obtain ⟨-, asked, hask, hsave⟩ := hanswer
  have hoffer : (session.question names found key).current = value := hcurrent.current_question
  obtain ⟨later, hkept, hrest⟩ := (succeeds_askValue_current_iff hinput).mpr (hoffer.symm ▸ hvalue)
  obtain ⟨terminal, hasked, rfl⟩ := succeeds_talk_iff.mp hask
  obtain ⟨rfl, rfl⟩ := hasked.unique hkept
  rw [hoffer] at hsave ⊢
  obtain ⟨-, count, -, -, hsame⟩ := succeeds_save hsave
  exact ⟨rfl, hsame.trans hrest⟩

/-- A round in which the present value is the answer changes neither memory nor what is read. -/
theorem IsCurrent.kept_of_answers (hread : IsRead target settings world)
    (hanswer : Session.Answers names found (fun question => talk (askValue question)) (save target found)
      session world key (.value value) existing after) :
    existing = session.existing ∧ IsRead target settings after := by
  obtain ⟨⟨count, hwrite⟩, -⟩ := write_of_answer hanswer
  obtain ⟨hproper, hafter⟩ :=
    readSettings_of_writeSettings_of_get? hread.proper hread.read hcurrent.file hwrite
  obtain ⟨-, asked, -, hsave⟩ := hanswer
  obtain ⟨rfl, -⟩ := succeeds_save hsave
  exact ⟨OrderedMap.insertMany_eq_self (List.forall_mem_singleton.mpr hcurrent.memory), hproper, hafter⟩

end Round

/-! ### A session of empty lines -/

/-- Nothing but empty lines is entered, and each variable that is still asked for has a value that is not
taken for a command. -/
structure OnlyEnters (names : List String) (target : Location) (settings : Entries) (session : Session)
    (world : World) : Prop where
  read : IsRead target settings world
  lines : ∀ line ∈ world.terminal.input, line = ""
  current : ∀ key ∈ names.drop session.index, ∃ value,
    IsCurrent settings session.existing key value ∧ ¬IsCommandText value

theorem OnlyEnters.kept_of_answers (henters : OnlyEnters names target settings session world)
    (hanswer : Session.Answers names found (fun question => talk (askValue question)) (save target found)
      session world key response existing after) :
    (∃ value, response = .value value) ∧ existing = session.existing ∧ IsRead target settings after ∧
      ∀ line ∈ after.terminal.input, line = "" := by
  obtain ⟨hindex, hkey⟩ := List.getElem?_eq_some_iff.mp hanswer.name
  have hasked : key ∈ names.drop session.index := by
    rw [List.drop_eq_getElem_cons hindex, hkey]
    exact List.mem_cons_self
  obtain ⟨value, hcurrent, hvalue⟩ := henters.current key hasked
  cases hinput : world.terminal.input with
  | nil =>
    have hless := hanswer.size_lt reads_of_talk_askValue input_of_save
    rw [hinput] at hless
    exact absurd hless (Nat.not_lt_zero _)
  | cons line rest =>
    obtain rfl : line = "" := henters.lines line (hinput ▸ List.mem_cons_self)
    obtain ⟨rfl, hrest⟩ := hcurrent.response_eq hvalue hinput hanswer
    obtain ⟨hsame, hafter⟩ := hcurrent.kept_of_answers henters.read hanswer
    refine ⟨⟨value, rfl⟩, hsame, hafter, fun line hline => henters.lines line ?_⟩
    rw [hinput]
    exact List.mem_cons_of_mem "" (hrest ▸ hline)

/-- **A session of empty lines changes nothing** in memory and of what is read from the file. -/
theorem OnlyEnters.kept_of_asks (henters : OnlyEnters names target settings session world)
    (hasks : Asks names found target session world answers last after) :
    last.existing = session.existing ∧ IsRead target settings after := by
  induction hasks with
  | ended hname => exact ⟨rfl, henters.read⟩
  | final hanswer hdone =>
    obtain ⟨-, rfl, hafter, -⟩ := henters.kept_of_answers hanswer
    exact ⟨rfl, hafter⟩
  | @next session last world middle after key response existing answers hanswer hdone hrest ih =>
    obtain ⟨⟨value, rfl⟩, rfl, hafter, hlines⟩ := henters.kept_of_answers hanswer
    refine ih ⟨hafter, hlines, fun name hname => henters.current name ?_⟩
    have hindex : (session.after (Session.stepOf names session key (.value value))
        session.existing).index = session.index + 1 := by
      rw [Session.after, hdone]
      rfl
    rw [hindex, ← List.drop_drop] at hname
    exact List.mem_of_mem_drop hname

/-- **Enter keeps the current value**, at once, just if that is not taken for a command. Where it is kept,
the save changes nothing of what is in memory and of what is read from the file, and so does a session of
nothing but empty lines. -/
theorem enter_keeps_current_value (names : List String) (found : Found) (target : Location) :
    (∀ (question : Question) (terminal : Terminal) (rest : List String), terminal.input = "" :: rest →
      ((∃ later, Succeeds (askValue question) terminal (.value question.current) later ∧
        later.input = rest) ↔ ¬IsCommandText question.current)) ∧
    (∀ (session : Session) (world : World) (settings : Entries) (key value : String) (rest : List String),
      IsRead target settings world → IsCurrent settings session.existing key value →
      ¬IsCommandText value → world.terminal.input = "" :: rest → ∀ response existing after,
        Session.Answers names found (fun question => talk (askValue question)) (save target found)
          session world key response existing after →
        response = .value value ∧ existing = session.existing ∧ IsRead target settings after) ∧
    ∀ (session last : Session) (world after : World) (settings : Entries) (answers : List Response),
      OnlyEnters names target settings session world →
      Asks names found target session world answers last after →
      last.existing = session.existing ∧ IsRead target settings after := by
  refine ⟨fun _ _ _ => succeeds_askValue_current_iff, ?_, fun _ _ _ _ _ _ => OnlyEnters.kept_of_asks⟩
  intro session world settings key value rest hread hcurrent hvalue hinput response existing after hanswer
  obtain ⟨rfl, -⟩ := hcurrent.response_eq hvalue hinput hanswer
  exact ⟨rfl, hcurrent.kept_of_answers hread hanswer⟩

def modeProject (line : String) : Disk := projectDisk [(".env", .file (Text.Utf8.encodeText line.toList))]

theorem isFolder_modeProject (line : String) :
    IsFolder (modeProject line) ["app"] [(".env", .file (Text.Utf8.encodeText line.toList))] :=
  isFolder_projectDisk rfl

theorem isRead_modeProject (line : String) (input : List String) :
    IsRead ["app", ".env"] (settingsOf (some (Text.Utf8.encodeText line.toList)))
      (.start (modeProject line) input) where
  proper := ⟨by decide, (isFolder_modeProject line).linkFree_child ".env", by decide⟩
  read := by
    have hroom : HasRoomFor ["app"] ".env" := by decide
    refine readSettings_of_bytes ?_
    exact congrArg (Except.map _) ((isFolder_modeProject line).find_eq hroom)

def modeSession (line : String) : Session := .start (settingsOf (some (Text.Utf8.encodeText line.toList)))

/-- In the project, an answer that gives the mode a value is saved. -/
theorem exists_answers_modeProject {line text : String} {input : List String}
    (hask : ∃ later, Succeeds (askValue ((modeSession line).question ["MODE"] ⟨[]⟩ "MODE"))
      (World.start (modeProject line) input).terminal response later ∧ later.input = rest)
    (hstep : (Session.stepOf ["MODE"] (modeSession line) "MODE" response).writes =
      OrderedMap.ofList [("MODE", text)]) :
    ∃ existing after, Session.Answers ["MODE"] ⟨[]⟩ (fun question => talk (askValue question))
        (save ["app", ".env"] ⟨[]⟩) (modeSession line) (.start (modeProject line) input) "MODE" response
          existing after ∧
      readSettings after.disk (.ofRoot ["app", ".env"]) =
        .ok (settingsOf (some (setEntries (OrderedMap.ofList [("MODE", text)])
          (some (Text.Utf8.encodeText line.toList))))) := by
  have hroom : HasRoomFor ["app"] ".env" := by decide
  have hcontent : [(".env", Node.file (Text.Utf8.encodeText line.toList))].lookup ".env" =
      (some (Text.Utf8.encodeText line.toList)).map .file := rfl
  have hwrite := succeeds_writeSettings_of_isFolder (isFolder_modeProject line) hroom hcontent
    (OrderedMap.ofList [("MODE", text)])
  have htarget := isTarget_of_isFolder (isFolder_modeProject line) hroom.isName hroom.zero_not_mem hcontent
  have hread := htarget.readSettings_put (htarget.writeSettings_eq hwrite).1
    (setEntries (OrderedMap.ofList [("MODE", text)]) (some (Text.Utf8.encodeText line.toList)))
  obtain ⟨asked, hasked, hdisk, -⟩ := exists_succeeds_talk hask
  have hasks : asked.disk = modeProject line := hdisk
  rw [← hasks] at hwrite
  obtain ⟨after, hsave, hafter, -⟩ := exists_succeeds_save hwrite
  refine ⟨(modeSession line).existing.merge (OrderedMap.ofList [("MODE", text)]), after,
    ⟨rfl, asked, hasked, ?_⟩, ?_⟩
  · unfold Session.saveStep
    rw [hstep]
    exact hsave
  · rw [hafter, hasks]
    exact hread

/-- Enter keeps a mode that is no command, and the file is read as before. -/
theorem enter_keeps_current_value_of_mode :
    ∃ existing after, Session.Answers ["MODE"] ⟨[]⟩ (fun question => talk (askValue question))
        (save ["app", ".env"] ⟨[]⟩) (modeSession "MODE=on") (.start (modeProject "MODE=on") [""]) "MODE"
          (.value "on") existing after ∧
      existing = (modeSession "MODE=on").existing ∧
        IsRead ["app", ".env"] (settingsOf (some (Text.Utf8.encodeText "MODE=on".toList))) after := by
  have hget : (settingsOf (some (Text.Utf8.encodeText "MODE=on".toList))).get? "MODE" = some "on" := by
    decide +kernel
  have hcurrent : IsCurrent (settingsOf (some (Text.Utf8.encodeText "MODE=on".toList)))
      (modeSession "MODE=on").existing "MODE" "on" := ⟨hget, hget⟩
  have hvalue : ¬IsCommandText "on" := by decide
  obtain ⟨hkeeps, hsaves, -⟩ := enter_keeps_current_value ["MODE"] ⟨[]⟩ ["app", ".env"]
  have hask := (hkeeps ((modeSession "MODE=on").question ["MODE"] ⟨[]⟩ "MODE")
    (World.start (modeProject "MODE=on") [""]).terminal [] rfl).mpr
  rw [hcurrent.current_question] at hask
  obtain ⟨existing, after, hanswer, -⟩ := exists_answers_modeProject (hask hvalue) rfl
  exact ⟨existing, after, hanswer,
    (hsaves _ _ _ _ _ [] (isRead_modeProject "MODE=on" [""]) hcurrent hvalue rfl _ _ _ hanswer).2⟩

/-- **Enter clears a mode that reads as a command.** -/
theorem enter_clears_command_word :
    (modeSession "MODE=clear").existing.get? "MODE" = some "clear" ∧
      readSettings (modeProject "MODE=clear") (.ofRoot ["app", ".env"]) =
        .ok (OrderedMap.ofList [("MODE", "clear")]) ∧
      ∃ existing after, Session.Answers ["MODE"] ⟨[]⟩ (fun question => talk (askValue question))
          (save ["app", ".env"] ⟨[]⟩) (modeSession "MODE=clear") (.start (modeProject "MODE=clear") [""])
            "MODE" .clear existing after ∧
        readSettings after.disk (.ofRoot ["app", ".env"]) = .ok (OrderedMap.ofList [("MODE", "")]) := by
  have hsettings : settingsOf (some (Text.Utf8.encodeText "MODE=clear".toList)) =
      OrderedMap.ofList [("MODE", "clear")] := OrderedMap.ext (by decide +kernel)
  have haccept : (valuePrompt ((modeSession "MODE=clear").question ["MODE"] ⟨[]⟩ "MODE")).accept "" =
      some "clear" := by
    change some ((OrderedMap.get? (settingsOf _) "MODE").getD "") = some "clear"
    rw [hsettings]
    rfl
  have hask : ∃ later, Succeeds (askValue ((modeSession "MODE=clear").question ["MODE"] ⟨[]⟩ "MODE"))
      (World.start (modeProject "MODE=clear") [""]).terminal .clear later ∧ later.input = [] :=
    exists_succeeds_askValue_clear rfl haccept (by decide) (by decide)
  refine ⟨?_, ?_, ?_⟩
  · rw [modeSession, Session.start, hsettings]
    rfl
  · rw [← hsettings]
    exact (isRead_modeProject "MODE=clear" [""]).read
  · obtain ⟨existing, after, hanswer, hread⟩ := exists_answers_modeProject hask rfl
    refine ⟨existing, after, hanswer, hread.trans (congrArg _ (OrderedMap.ext ?_))⟩
    decide +kernel

end EnvFill.Command
