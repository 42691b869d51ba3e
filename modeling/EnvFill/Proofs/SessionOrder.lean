import EnvFill.Proofs.SessionRounds

/-!
# The order of the questions

Where a question stands follows from the one before it and the answer to that one. A session comes to
a later name only past the earlier ones, so one that ends by itself has dealt with every name.
-/

namespace EnvFill.Fill

open EnvFile

/-- Whether an answer deals with its variable alone, so that the next one comes. -/
def Response.settles : Response → Bool
  | .value _ | .skip | .clear => true
  | .back | .stop | .skipAll | .paste _ => false

/-- Whether a question may follow a round, and then where it stands among `total` variables. -/
def Round.LeadsTo (total : Nat) (round later : Round) : Prop :=
  match round.response with
  | .value _ | .skip | .clear =>
    later.question.index = round.question.index + 1 ∧ round.question.index + 1 < total
  | .back => later.question.index = max (round.question.index - 1) 0
  | .stop | .skipAll | .paste _ => False

namespace Session

variable {names : List String} {found : Found} {key : String} {session last : Session}
  {response : Response} {answers : List Response} {played : List Round}

theorem Replays.ne_nil (hreplays : Replays names found session answers played last)
    (hindex : session.index < names.length) : played ≠ [] := by
  cases hreplays with
  | ended hname => exact absurd (List.getElem?_eq_none_iff.mp hname) (Nat.not_le.mpr hindex)
  | final hname hanswer hdone => exact List.cons_ne_nil _ _
  | next hname hdone hrest => exact List.cons_ne_nil _ _

theorem Replays.head_index (hreplays : Replays names found session answers played last) :
    ∀ round ∈ played.head?, round.question.index = session.index := by
  cases hreplays with
  | ended hname => simp
  | final hname hanswer hdone =>
    rintro round ⟨⟩
    rfl
  | next hname hdone hrest =>
    rintro round ⟨⟩
    rfl

/-- An answer that does not end the session deals with a variable before the last one, or goes back. -/
theorem index_answered (hname : names[session.index]? = some key)
    (hdone : (stepOf names session key response).done = false) :
    (session.answered names key response).index < names.length ∧
      (response.settles = true ∧
          (session.answered names key response).index = session.index + 1 ∨
        response = .back ∧ (session.answered names key response).index = session.index - 1) := by
  obtain ⟨hindex, -⟩ := List.getElem?_eq_some_iff.mp hname
  have hafter : (session.answered names key response).index =
      (stepOf names session key response).index.toNat := by
    rw [answered, after, hdone]
    rfl
  rw [hafter]
  cases response with
  | value text | skip | clear =>
    have hless : ¬(names.length : Int) ≤ session.index + 1 := of_decide_eq_false hdone
    have hnext : ((session.index : Int) + 1).toNat = session.index + 1 := by omega
    refine ⟨?_, .inl ⟨rfl, hnext⟩⟩
    change ((session.index : Int) + 1).toNat < names.length
    omega
  | back =>
    have hback : (max ((session.index : Int) - 1) 0).toNat = session.index - 1 := by omega
    refine ⟨?_, .inr ⟨rfl, hback⟩⟩
    change (max ((session.index : Int) - 1) 0).toNat < names.length
    omega
  | stop | skipAll | paste text => exact absurd hdone (by simp [stepOf, Step.of])

/-- The places of the questions follow the answers. -/
theorem Replays.isChain (hreplays : Replays names found session answers played last) :
    played.IsChain (Round.LeadsTo names.length) := by
  induction hreplays with
  | ended hname => exact List.isChain_nil
  | final hname hanswer hdone => exact List.isChain_singleton _
  | @next session last key response answers played hname hdone hrest ih =>
    refine List.isChain_cons.mpr ⟨fun round hround => ?_, ih⟩
    have hplace := hrest.head_index round hround
    obtain ⟨hless, ⟨hsettles, hindex⟩ | ⟨rfl, hindex⟩⟩ := index_answered hname hdone
    · rw [hindex] at hplace hless
      have hnext : round.question.index = (session.index : Int) + 1 ∧
          (session.index : Int) + 1 < names.length := by
        rw [hplace]
        omega
      cases response with
      | value text | skip | clear => exact hnext
      | back | stop | skipAll | paste text => exact absurd hsettles Bool.false_ne_true
    · rw [hindex] at hplace
      change round.question.index = max ((session.index : Int) - 1) 0
      omega

/-- After the last round no question may follow. -/
theorem Replays.getLast_not_leadsTo (hreplays : Replays names found session answers played last) :
    ∀ round ∈ played.getLast?, ∀ later, ¬round.LeadsTo names.length later := by
  induction hreplays with
  | ended hname => simp
  | @final session key response answers hname hanswer hdone =>
    rintro round ⟨⟩ later hleads
    cases response with
    | value text | skip | clear =>
      have hle : (names.length : Int) ≤ session.index + 1 := of_decide_eq_true hdone
      exact absurd hleads.2 (Int.not_lt.mpr hle)
    | back => exact absurd hdone Bool.false_ne_true
    | stop | skipAll | paste text => exact hleads
  | @next session last key response answers played hname hdone hrest ih =>
    obtain ⟨hless, -⟩ := index_answered hname hdone
    obtain ⟨second, rest, rfl⟩ := List.exists_cons_of_ne_nil (hrest.ne_nil hless)
    rwa [List.getLast?_cons_cons]

/-- A round that does not end the session deals with its own place and leads on to those after it, or it
goes back. -/
theorem exists_settled_cons {played : List Round} (hname : names[session.index]? = some key)
    (hdone : (stepOf names session key response).done = false) {place : Nat}
    (hplace : session.index ≤ place)
    (hlater : (session.answered names key response).index ≤ place →
      ∃ round ∈ played, round.question.index = place ∧ round.response.settles = true) :
    ∃ round ∈ (⟨session.question names found key, response⟩ : Round) :: played,
      round.question.index = place ∧ round.response.settles = true := by
  have hpassed (hle : (session.answered names key response).index ≤ place) :
      ∃ round ∈ (⟨session.question names found key, response⟩ : Round) :: played,
        round.question.index = place ∧ round.response.settles = true := by
    obtain ⟨round, hround, hsettled⟩ := hlater hle
    exact ⟨round, List.mem_cons_of_mem _ hround, hsettled⟩
  obtain ⟨-, ⟨hsettles, hindex⟩ | ⟨-, hindex⟩⟩ := index_answered hname hdone
  · by_cases hhere : session.index = place
    · exact ⟨_, List.mem_cons_self, congrArg Nat.cast hhere, hsettles⟩
    · exact hpassed (by omega)
  · exact hpassed (by omega)

/-- Unless it is stopped or ended by a paste, a session deals with every variable from the present one
on. -/
theorem Replays.exists_settled (hreplays : Replays names found session answers played last)
    (hstopped : last.stopped = false)
    (hpaste : ∀ round ∈ played, ∀ text, round.response ≠ .paste text) {place : Nat}
    (hplace : session.index ≤ place) (hlast : place < names.length) :
    ∃ round ∈ played, round.question.index = place ∧ round.response.settles = true := by
  induction hreplays with
  | ended hname =>
    have hle := List.getElem?_eq_none_iff.mp hname
    omega
  | @final session key response answers hname hanswer hdone =>
    refine ⟨_, List.mem_singleton_self _, ?_⟩
    have hend : (stepOf names session key response).stopped = false := by
      have hstop : ((stepOf names session key response).done &&
          (stepOf names session key response).stopped) = false := hstopped
      rwa [hdone, Bool.true_and] at hstop
    cases response with
    | value text | skip | clear =>
      have hle : (names.length : Int) ≤ session.index + 1 := of_decide_eq_true hdone
      refine ⟨?_, rfl⟩
      change (session.index : Int) = place
      omega
    | back => exact absurd hdone Bool.false_ne_true
    | stop | skipAll => exact absurd hend.symm Bool.false_ne_true
    | paste text => exact absurd rfl (hpaste _ (List.mem_singleton_self _) text)
  | @next session last key response answers played hname hdone hrest ih =>
    have hpasteRest : ∀ round ∈ played, ∀ text, round.response ≠ .paste text :=
      fun round hround => hpaste round (List.mem_cons_of_mem _ hround)
    exact exists_settled_cons hname hdone hplace fun hle => ih hstopped hpasteRest hle

theorem advance?_isSome {index : Nat} (hname : names[index]? = some key) (response : Response) :
    (advance? index names response).isSome := by
  have hkey : nameAt? names index = some key := by
    unfold nameAt?
    simp only [Int.not_lt.mpr (Int.natCast_nonneg index), if_false, Int.toNat_natCast, hname]
  rw [advance?, hkey]
  rfl

/-- **The questions keep to the names.** They begin with the first name, move as the answers say, and
end only where they must; a session that is neither stopped nor ended by a paste has dealt with every
name. -/
theorem replay_keeps_to_names (names : List String) (found : Found) (existing : Entries)
    (answers : List Response) :
    let played := rounds names found existing answers
    let (events, last) := replay names found existing answers
    asked events = played.map Round.question ∧ (asked events).length ≤ answers.length + 1 ∧
      (∀ round ∈ played, 0 ≤ round.question.index ∧ round.question.index < names.length ∧
        (advance? round.question.index names round.response).isSome) ∧
      (∀ round ∈ played.head?, round.question.index = 0) ∧
      played.IsChain (Round.LeadsTo names.length) ∧
      (names ≠ [] → ∃ round ∈ played.getLast?, ∀ later, ¬round.LeadsTo names.length later) ∧
      (last.stopped = false → (∀ round ∈ played, ∀ text, round.response ≠ .paste text) →
        ∀ place < names.length,
          ∃ round ∈ played, round.question.index = place ∧ round.response.settles = true) := by
  obtain ⟨played, last, hreplays⟩ := exists_replays names found (.start existing) answers
  obtain ⟨hreplay, hrounds⟩ := hreplays.replay_eq
  rw [hreplay, hrounds]
  refine ⟨asked_flatMap_events played, ?_, ?_, hreplays.head_index, hreplays.isChain, ?_, ?_⟩
  · have hlength := hreplays.responses.length_le
    rw [asked_flatMap_events, List.length_map]
    simpa using hlength
  · intro round hround
    obtain ⟨earlier, later, hplayed⟩ := List.append_of_mem hround
    obtain ⟨now, key, hname, -, hquestion⟩ := hreplays.question_eq hplayed
    obtain ⟨hindex, -⟩ := List.getElem?_eq_some_iff.mp hname
    have hplace : round.question.index = now.index := by rw [hquestion]; rfl
    rw [hplace]
    exact ⟨Int.natCast_nonneg _, Int.ofNat_lt.mpr hindex, advance?_isSome hname round.response⟩
  · intro hne
    have hplayed := hreplays.ne_nil (List.length_pos_iff.mpr hne)
    exact ⟨_, List.getLast?_eq_some_getLast hplayed,
      hreplays.getLast_not_leadsTo _ (List.getLast?_eq_some_getLast hplayed)⟩
  · intro hstopped hpaste place hplace
    exact hreplays.exists_settled hstopped hpaste (Nat.zero_le place) hplace

end Session

end EnvFill.Fill
