import EnvFill.Proofs.SessionOrder

/-!
# How many variables are skipped

An answer that deals with its variable leads one name on, and going back leads one name back. So the skips
and the values given add up to the names that were passed and the times of going back. A variable that was
skipped may get a value all the same, when the user comes back to it or pastes one.
-/

namespace EnvFill.Fill

open EnvFile

def Response.givesValue : Response → Bool
  | .value _ | .clear => true
  | .skip | .back | .stop | .skipAll | .paste _ => false

namespace Round

def goesBack (round : Round) : Bool := round.response == .back && 0 < round.question.index

def pastedKeys (round : Round) : List String :=
  match round.response with
  | .paste text => (Entries.ofPaste text).keys
  | _ => []

/-- How many of `total` names are passed when the session ends here: a stop and a paste pass none. -/
def passed (total : Nat) (round : Round) : Int :=
  match round.response with
  | .stop | .paste _ => round.question.index
  | .value _ | .skip | .clear | .back | .skipAll => total

end Round

/-- How many of `total` names a session with these rounds passes. -/
def namesPassed (total : Nat) (played : List Round) : Int :=
  (played.getLast?.map (Round.passed total)).getD total

def isSkippedAndPasted (played : List Round) (name : String) : Bool :=
  (played.any fun round => round.response == .skip && round.question.key == name) &&
    played.any fun round => round.pastedKeys.contains name

theorem namesPassed_cons {played : List Round} {round : Round} (hplayed : played ≠ []) (total : Nat) :
    namesPassed total (round :: played) = namesPassed total played := by
  obtain ⟨second, rest, rfl⟩ := List.exists_cons_of_ne_nil hplayed
  rw [namesPassed, List.getLast?_cons_cons, namesPassed]

namespace Session

variable {names : List String} {found : Found} {key : String} {session last : Session}
  {response : Response} {answers : List Response} {played : List Round} {existing : Entries}

/-! ### Counting rounds -/

theorem skipped_answered : (session.answered names key response).skipped =
    session.skipped + (stepOf names session key response).skipped := rfl

/-- A round that does not end the session moves the place as it counts. -/
theorem index_add_answered (hname : names[session.index]? = some key)
    (hdone : (stepOf names session key response).done = false) :
    (session.answered names key response).index +
        (if Round.goesBack ⟨session.question names found key, response⟩ then (1 : Int) else 0) =
      session.index + (stepOf names session key response).skipped +
        if response.givesValue then 1 else 0 := by
  obtain ⟨-, ⟨hsettles, hindex⟩ | ⟨rfl, hindex⟩⟩ := index_answered hname hdone
  · have hforward : Round.goesBack ⟨session.question names found key, response⟩ = false := by
      cases response with
      | back => exact absurd hsettles Bool.false_ne_true
      | value _ | skip | clear | stop | skipAll | paste _ => rfl
    rw [hindex, hforward]
    cases response with
    | value text | clear => simp [stepOf, Step.of, Step.next, Response.givesValue]
    | skip => simp [stepOf, Step.of, Step.next, Response.givesValue]
    | back | stop | skipAll | paste text => exact absurd hsettles Bool.false_ne_true
  · have hbackward : Round.goesBack ⟨session.question names found key, .back⟩ =
        decide (0 < (session.index : Int)) := Bool.true_and _
    have hskipped : (stepOf names session key .back).skipped = 0 := rfl
    rw [hindex, hbackward, hskipped, Response.givesValue, if_neg Bool.false_ne_true]
    by_cases hpos : 0 < (session.index : Int)
    · rw [if_pos (decide_eq_true hpos)]
      omega
    · rw [if_neg (by simpa using hpos)]
      omega

/-- **The skips and the values given** add up to the names passed and the times of going back. -/
theorem Replays.skipped_add (hreplays : Replays names found session answers played last)
    (hindex : session.index ≤ names.length) :
    last.skipped + played.countP (·.response.givesValue) + session.index =
      session.skipped + namesPassed names.length played + played.countP Round.goesBack := by
  induction hreplays with
  | @ended session answers hname =>
    have hle := List.getElem?_eq_none_iff.mp hname
    have hend : (session.index : Int) = names.length := by omega
    rw [hend]
    simp [namesPassed]
  | @final session key response answers hname hanswer hdone =>
    obtain ⟨hless, -⟩ := List.getElem?_eq_some_iff.mp hname
    have hpassed : namesPassed names.length [⟨session.question names found key, response⟩] =
        Round.passed names.length ⟨session.question names found key, response⟩ := rfl
    rw [hpassed, skipped_answered, List.countP_singleton, List.countP_singleton]
    cases response with
    | value text | clear =>
      have hle : (names.length : Int) ≤ session.index + 1 := of_decide_eq_true hdone
      change session.skipped + 0 + ((1 : Nat) : Int) + session.index =
        session.skipped + names.length + ((0 : Nat) : Int)
      omega
    | skip =>
      have hle : (names.length : Int) ≤ session.index + 1 := of_decide_eq_true hdone
      change session.skipped + 1 + ((0 : Nat) : Int) + session.index =
        session.skipped + names.length + ((0 : Nat) : Int)
      omega
    | back => exact absurd hdone Bool.false_ne_true
    | stop | paste text =>
      change session.skipped + 0 + ((0 : Nat) : Int) + session.index =
        session.skipped + session.index + ((0 : Nat) : Int)
      omega
    | skipAll =>
      change session.skipped + (names.length - session.index) + ((0 : Nat) : Int) + session.index =
        session.skipped + names.length + ((0 : Nat) : Int)
      omega
  | @next session last key response answers played hname hdone hrest ih =>
    obtain ⟨hless, -⟩ := index_answered hname hdone
    have hround := @index_add_answered names found key session response hname hdone
    have hlater := ih hless.le
    rw [skipped_answered] at hlater
    rw [namesPassed_cons (hrest.ne_nil hless), List.countP_cons, List.countP_cons]
    push_cast
    omega

/-! ### Which names have a value -/

/-- The round that ends a session stands where the session stays. -/
theorem Replays.index_of_paste (hreplays : Replays names found session answers played last)
    {round : Round} (hround : round ∈ played) {text : String} (hpaste : round.response = .paste text) :
    round.question.index = last.index ∧ round ∈ played.getLast? := by
  induction hreplays with
  | ended hname => exact absurd hround List.not_mem_nil
  | @final session key response answers hname hanswer hdone =>
    obtain rfl := List.mem_singleton.mp hround
    have hstays : (session.answered names key response).index = session.index := if_pos hdone
    exact ⟨congrArg Nat.cast hstays.symm, rfl⟩
  | @next session last key response answers played hname hdone hrest ih =>
    rcases List.mem_cons.mp hround with rfl | hround
    · obtain rfl : response = .paste text := hpaste
      exact absurd hdone (by simp [stepOf, Step.of])
    · obtain ⟨hindex, hlast⟩ := ih hround
      obtain ⟨second, rest, rfl⟩ := List.exists_cons_of_ne_nil (List.ne_nil_of_mem hround)
      exact ⟨hindex, by rwa [List.getLast?_cons_cons]⟩

/-- Each name before the place where a session ends has been dealt with. -/
theorem Replays.exists_settled_before (hreplays : Replays names found session answers played last)
    {place : Nat} (hplace : session.index ≤ place) (hlast : place < last.index) :
    ∃ round ∈ played, round.question.index = place ∧ round.response.settles = true := by
  induction hreplays with
  | ended hname => omega
  | @final session key response answers hname hanswer hdone =>
    have hstays : (session.answered names key response).index = session.index := if_pos hdone
    omega
  | @next session last key response answers played hname hdone hrest ih =>
    exact exists_settled_cons hname hdone hplace fun hle => ih hle hlast

theorem Replays.name_eq (hreplays : Replays names found session answers played last) {round : Round}
    (hround : round ∈ played) :
    ∃ place : Nat, round.question.index = place ∧ names[place]? = some round.question.key := by
  obtain ⟨earlier, later, hplayed⟩ := List.append_of_mem hround
  obtain ⟨now, key, hname, -, hquestion⟩ := hreplays.question_eq hplayed
  rw [hquestion]
  exact ⟨now.index, rfl, hname⟩

theorem Replays.namesPassed_le (hreplays : Replays names found session answers played last) :
    namesPassed names.length played ≤ names.length := by
  unfold namesPassed
  cases hlast : played.getLast? with
  | none => exact le_refl _
  | some round =>
    obtain ⟨place, hplace, hname⟩ := hreplays.name_eq (List.mem_of_getLast? hlast)
    obtain ⟨hless, -⟩ := List.getElem?_eq_some_iff.mp hname
    change Round.passed names.length round ≤ names.length
    unfold Round.passed
    cases round.response with
    | stop | paste text =>
      dsimp only
      omega
    | value text | skip | clear | back | skipAll => exact le_refl _

/-- A key among the values of a session was asked for and given a value, or pasted. -/
theorem exists_of_mem_values (hreplays : Replays names found (.start existing) answers played last)
    (hkey : key ∈ last.values.keys) :
    (∃ round ∈ played, round.response.givesValue = true ∧ round.question.key = key) ∨
      ∃ round ∈ played, key ∈ round.pastedKeys := by
  have hvalues : last.values = settingsAfter ∅ played := hreplays.values_eq
  rw [hvalues, settingsAfter, OrderedMap.mem_keys_foldl_merge] at hkey
  obtain hkey | ⟨batch, hbatch, hkey⟩ := hkey
  · exact absurd hkey List.not_mem_nil
  obtain ⟨round, hround, hsaved⟩ := List.mem_flatMap.mp hbatch
  unfold Round.saves at hsaved
  cases hresponse : round.response with
  | value text | clear =>
    rw [hresponse] at hsaved
    obtain rfl := List.mem_singleton.mp hsaved
    refine .inl ⟨round, hround, ?_, (List.mem_singleton.mp hkey).symm⟩
    rw [hresponse]
    rfl
  | paste text =>
    rw [hresponse, Response.saves] at hsaved
    split at hsaved
    · exact absurd hsaved List.not_mem_nil
    · obtain rfl := List.mem_singleton.mp hsaved
      refine .inr ⟨round, hround, ?_⟩
      rwa [Round.pastedKeys, hresponse]
  | skip | back | stop | skipAll =>
    rw [hresponse] at hsaved
    exact absurd hsaved List.not_mem_nil

def givenKeys (played : List Round) : List String :=
  (played.filter (·.response.givesValue)).map (·.question.key)

theorem length_givenKeys (played : List Round) :
    (givenKeys played).length = played.countP (·.response.givesValue) := by
  rw [givenKeys, List.length_map, List.countP_eq_length_filter]

theorem mem_givenKeys_iff : key ∈ givenKeys played ↔
    ∃ round ∈ played, round.response.givesValue = true ∧ round.question.key = key := by
  simp only [givenKeys, List.mem_map, List.mem_filter, and_assoc]

/-- A name with a value was given it when asked for, or comes after the paste that gives it, or was
skipped before that. -/
theorem mem_of_mem_values (hreplays : Replays names found (.start existing) answers played last)
    (hname : key ∈ names) (hkey : key ∈ last.values.keys) :
    key ∈ givenKeys played ∨ (∃ round ∈ played, key ∈ round.pastedKeys) ∧
      (key ∈ names.drop last.index ∨ isSkippedAndPasted played key = true) := by
  rcases exists_of_mem_values hreplays hkey with hgiven | ⟨paste, hpaste, hpasted⟩
  · exact .inl (mem_givenKeys_iff.mpr hgiven)
  obtain ⟨place, hplace, rfl⟩ := List.getElem_of_mem hname
  by_cases hlater : last.index ≤ place
  · have hdrop : (names.drop last.index)[place - last.index]? = some names[place] := by
      rw [List.getElem?_drop, Nat.add_sub_cancel' hlater, List.getElem?_eq_getElem hplace]
    exact .inr ⟨⟨paste, hpaste, hpasted⟩, .inl (List.mem_of_getElem? hdrop)⟩
  obtain ⟨round, hround, hindex, hsettles⟩ :=
    hreplays.exists_settled_before (Nat.zero_le place) (Nat.lt_of_not_le hlater)
  have hkey : round.question.key = names[place] := by
    obtain ⟨other, hother, hasked⟩ := hreplays.name_eq hround
    obtain rfl : other = place := by omega
    rw [List.getElem?_eq_getElem hplace] at hasked
    exact (Option.some.inj hasked).symm
  cases hresponse : round.response with
  | value text | clear =>
    exact .inl (mem_givenKeys_iff.mpr ⟨round, hround, by rw [hresponse]; rfl, hkey⟩)
  | skip =>
    refine .inr ⟨⟨paste, hpaste, hpasted⟩, .inr ?_⟩
    rw [isSkippedAndPasted, Bool.and_eq_true, List.any_eq_true, List.any_eq_true]
    refine ⟨⟨round, hround, ?_⟩, paste, hpaste, by simpa using hpasted⟩
    simp [hresponse, hkey]
  | back | stop | skipAll | paste text =>
    rw [hresponse] at hsettles
    exact absurd hsettles Bool.false_ne_true

/-- Of distinct names no more have a value than were given one, come after a paste, or were skipped and
then pasted. -/
theorem length_valued_le (hreplays : Replays names found (.start existing) answers played last)
    (hnames : names.Nodup) :
    ((names.filter last.values.contains).length : Int) ≤
      played.countP (·.response.givesValue) + (names.length - namesPassed names.length played) +
        (names.filter (isSkippedAndPasted played)).length := by
  have hnodup := hnames.filter last.values.contains
  have hmem : ∀ name ∈ names.filter last.values.contains, name ∈ names ∧ name ∈ last.values.keys := by
    intro name hname
    obtain ⟨hname, hvalue⟩ := List.mem_filter.mp hname
    exact ⟨hname, by simpa [OrderedMap.contains] using hvalue⟩
  rw [← length_givenKeys]
  by_cases hpaste : ∃ round ∈ played, ∃ text, round.response = .paste text
  · obtain ⟨paste, hmempaste, text, htext⟩ := hpaste
    obtain ⟨hindex, hlast⟩ := hreplays.index_of_paste hmempaste htext
    have hpassed : namesPassed names.length played = last.index := by
      rw [namesPassed, Option.mem_def.mp hlast, Option.map_some, Option.getD_some, Round.passed, htext]
      exact hindex
    have hsubset : names.filter last.values.contains ⊆
        givenKeys played ++ (names.drop last.index ++ names.filter (isSkippedAndPasted played)) := by
      intro name hname
      obtain ⟨hname, hvalue⟩ := hmem name hname
      rw [List.mem_append, List.mem_append, List.mem_filter]
      rcases mem_of_mem_values hreplays hname hvalue with hgiven | ⟨-, hdrop | hboth⟩
      · exact .inl hgiven
      · exact .inr (.inl hdrop)
      · exact .inr (.inr ⟨hname, hboth⟩)
    have hlength := hnodup.length_le_of_subset hsubset
    have hle := hreplays.namesPassed_le
    rw [List.length_append, List.length_append, List.length_drop] at hlength
    omega
  · have hsubset : names.filter last.values.contains ⊆ givenKeys played := by
      intro name hname
      obtain ⟨hname, hvalue⟩ := hmem name hname
      rcases mem_of_mem_values hreplays hname hvalue with hgiven | ⟨⟨paste, hmempaste, hpasted⟩, -⟩
      · exact hgiven
      · unfold Round.pastedKeys at hpasted
        split at hpasted
        · rename_i text htext
          exact absurd ⟨paste, hmempaste, text, htext⟩ hpaste
        · exact absurd hpasted List.not_mem_nil
    have hlength := hnodup.length_le_of_subset hsubset
    have hle := hreplays.namesPassed_le
    omega

/-- **Skips count answers, not variables.** The skips and the values given add up to the names that the
session passed and the times of going back. So there are no more skips and names with a value than names,
but for the times of going back and the names that were skipped and then pasted. -/
theorem replay_skipped_add_given (names : List String) (found : Found) (existing : Entries)
    (answers : List Response) (hnames : names.Nodup) :
    let played := rounds names found existing answers
    let last := (replay names found existing answers).2
    last.skipped + played.countP (·.response.givesValue) =
        namesPassed names.length played + played.countP Round.goesBack ∧
      last.skipped + (names.filter last.values.contains).length ≤
        names.length + played.countP Round.goesBack +
          (names.filter (isSkippedAndPasted played)).length := by
  obtain ⟨played, last, hreplays⟩ := exists_replays names found (.start existing) answers
  obtain ⟨hreplay, hrounds⟩ := hreplays.replay_eq
  rw [hreplay, hrounds]
  have hsum := hreplays.skipped_add (Nat.zero_le _)
  have hvalued := length_valued_le hreplays hnames
  have hstart : (start existing).index = 0 ∧ (start existing).skipped = 0 := ⟨rfl, rfl⟩
  rw [hstart.1, hstart.2] at hsum
  dsimp only
  omega

/-- A session in which the user goes back twice, and then pastes a value for what was skipped. -/
theorem replay_skipped_add_given_of_paste :
    ["A_ONE", "B_TWO", "C_SIX"].Nodup ∧
      let answers := [.skip, .back, .skip, .value "x", .paste "A_ONE=1"]
      let played := rounds ["A_ONE", "B_TWO", "C_SIX"] ∅ ∅ answers
      let last := (replay ["A_ONE", "B_TWO", "C_SIX"] ∅ ∅ answers).2
      last.skipped + played.countP (·.response.givesValue) =
          namesPassed 3 played + played.countP Round.goesBack ∧
        last.skipped + (["A_ONE", "B_TWO", "C_SIX"].filter last.values.contains).length ≤
          3 + played.countP Round.goesBack +
            (["A_ONE", "B_TWO", "C_SIX"].filter (isSkippedAndPasted played)).length :=
  ⟨by decide, replay_skipped_add_given ["A_ONE", "B_TWO", "C_SIX"] ∅ ∅ _ (by decide)⟩

/-- Going back to a variable and skipping it again counts it twice. -/
theorem skipped_twice_counts_twice :
    ¬∀ (names : List String) (found : Found) (existing : Entries) (answers : List Response),
      names.Nodup →
        let last := (replay names found existing answers).2
        last.skipped + (names.filter last.values.contains).length ≤ names.length := by
  intro hall
  have hle := hall ["A_ONE", "B_TWO"] ∅ ∅ [.skip, .back, .skip, .skip] (by decide)
  exact absurd hle (by decide)

end Session

end EnvFill.Fill
