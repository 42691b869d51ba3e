import EnvFill.Proofs.Merge
import EnvFill.Proofs.SessionRuns

/-!
# Rounds of a session

A session with given answers is a list of rounds: in each a question is asked, and what the answer to
it saves is saved before the next one. The rounds say what was saved and what the questions showed.
-/

namespace EnvFill.Fill

open EnvFile

structure Round where
  question : Question
  response : Response

def Response.saves (key : String) : Response → List Entries
  | .value text => [OrderedMap.ofList [(key, text)]]
  | .clear => [OrderedMap.ofList [(key, "")]]
  | .paste text => if (Entries.ofPaste text).isEmpty then [] else [Entries.ofPaste text]
  | .skip | .back | .stop | .skipAll => []

namespace Round

def saves (round : Round) : List Entries := round.response.saves round.question.key

/-- What is seen of a round: the question, and then what is saved. -/
def events (round : Round) : List Session.Event :=
  .asked round.question :: round.saves.map .saved

end Round

def settingsAfter (existing : Entries) (rounds : List Round) : Entries :=
  (rounds.flatMap Round.saves).foldl OrderedMap.merge existing

namespace Session

variable {names : List String} {found : Found} {key : String} {session last : Session}
  {response : Response} {answers front : List Response} {played : List Round} {existing : Entries}

def asked (events : List Event) : List Question :=
  events.filterMap fun
    | .asked question => some question
    | .saved _ => none

/-- The rounds of a session: the questions that were asked, each with its answer. After the last
answer the session is stopped. -/
def rounds (names : List String) (found : Found) (existing : Entries) (answers : List Response) :
    List Round :=
  List.zipWith Round.mk (asked (replay names found existing answers).1) (answers ++ [.stop])

/-- The session after the answer to the question about `key`. -/
def answered (names : List String) (session : Session) (key : String) (response : Response) :
    Session :=
  session.after (stepOf names session key response)
    (session.existing.merge (stepOf names session key response).writes)

/-- The session goes through the rounds and ends as `last`, when these answers are given. -/
inductive Replays (names : List String) (found : Found) :
    Session → List Response → List Round → Session → Prop where
  | ended {session : Session} {answers : List Response} (hname : names[session.index]? = none) :
      Replays names found session answers [] session
  | final {session : Session} {key : String} {response : Response} {answers : List Response}
      (hname : names[session.index]? = some key)
      (hanswer : (answers ++ [Response.stop]).head? = some response)
      (hdone : (stepOf names session key response).done = true) :
      Replays names found session answers [⟨session.question names found key, response⟩]
        (session.answered names key response)
  | next {session last : Session} {key : String} {response : Response} {answers : List Response}
      {played : List Round}
      (hname : names[session.index]? = some key)
      (hdone : (stepOf names session key response).done = false)
      (hrest : Replays names found (session.answered names key response) answers played last) :
      Replays names found session (response :: answers)
        (⟨session.question names found key, response⟩ :: played) last

theorem saves_eq : response.saves key =
    if (stepOf names session key response).writes.isEmpty then []
    else [(stepOf names session key response).writes] := by
  cases response <;> rfl

theorem merge_writes (map : Entries) :
    map.merge (stepOf names session key response).writes =
      (response.saves key).foldl OrderedMap.merge map := by
  rw [@saves_eq names key session]
  split
  · rename_i hempty
    exact OrderedMap.merge_of_isEmpty hempty
  · rfl

theorem existing_answered : (session.answered names key response).existing =
    (response.saves key).foldl OrderedMap.merge session.existing :=
  merge_writes session.existing

theorem values_answered : (session.answered names key response).values =
    (response.saves key).foldl OrderedMap.merge session.values :=
  merge_writes session.values

theorem settingsAfter_cons (round : Round) (rest : List Round) :
    settingsAfter existing (round :: rest) =
      settingsAfter (round.saves.foldl OrderedMap.merge existing) rest := by
  rw [settingsAfter, List.flatMap_cons, List.foldl_append]
  rfl

theorem exists_replays (names : List String) (found : Found) (session : Session)
    (answers : List Response) : ∃ played last, Replays names found session answers played last := by
  induction answers generalizing session with
  | nil =>
    cases hname : names[session.index]? with
    | none => exact ⟨_, _, .ended hname⟩
    | some key => exact ⟨_, _, .final hname rfl rfl⟩
  | cons response answers ih =>
    cases hname : names[session.index]? with
    | none => exact ⟨_, _, .ended hname⟩
    | some key =>
      cases hdone : (stepOf names session key response).done with
      | true => exact ⟨_, _, .final hname rfl hdone⟩
      | false =>
        obtain ⟨played, last, hrest⟩ := ih (session.answered names key response)
        exact ⟨_, _, .next hname hdone hrest⟩

/-- A question takes one answer, or the stop after the last one. -/
theorem run_replay_ask {question : Question} {events : List Event}
    (hanswer : (answers ++ [Response.stop]).head? = some response) :
    (Replay.ask question).run ⟨answers, events⟩ =
      (response, ⟨answers.tail, events ++ [.asked question]⟩) := by
  cases answers with
  | nil =>
    obtain rfl : Response.stop = response := by simpa using hanswer
    rfl
  | cons first rest =>
    obtain rfl : first = response := by simpa using hanswer
    rfl

theorem run_replay_saveStep (replay : Replay) :
    (saveStep Replay.save session (stepOf names session key response)).run replay =
      (session.existing.merge (stepOf names session key response).writes,
        { replay with events := replay.events ++ (response.saves key).map .saved }) := by
  rw [@saves_eq names key session, saveStep]
  split
  · rename_i hempty
    rw [OrderedMap.merge_of_isEmpty hempty, List.map_nil, List.append_nil]
    rfl
  · rfl

/-- One round takes one answer, or the stop after the last one. -/
theorem run_replay_of_some {count : Nat} {events : List Event}
    (hname : names[session.index]? = some key)
    (hanswer : (answers ++ [Response.stop]).head? = some response) :
    (run names found Replay.ask Replay.save (count + 1) session).run ⟨answers, events⟩ =
      let seen := events ++ Round.events ⟨session.question names found key, response⟩
      if (stepOf names session key response).done then
        (session.answered names key response, ⟨answers.tail, seen⟩)
      else
        (run names found Replay.ask Replay.save count (session.answered names key response)).run
          ⟨answers.tail, seen⟩ := by
  rw [run_of_some hname, StateT.run_bind, run_replay_ask hanswer]
  change ((saveStep Replay.save session (stepOf names session key response)) >>= _).run _ = _
  rw [StateT.run_bind, run_replay_saveStep]
  have hseen : events ++ [Event.asked (session.question names found key)] ++
      (response.saves key).map Event.saved =
        events ++ Round.events ⟨session.question names found key, response⟩ :=
    List.append_assoc _ _ _
  dsimp only
  rw [hseen]
  cases (stepOf names session key response).done with
  | true => rfl
  | false => rfl

theorem Replays.run_eq (hreplays : Replays names found session answers played last) (count : Nat)
    (events : List Event) (hcount : answers.length < count) :
    ∃ rest, (run names found Replay.ask Replay.save count session).run ⟨answers, events⟩ =
      (last, ⟨rest, events ++ played.flatMap Round.events⟩) := by
  induction hreplays generalizing count events with
  | @ended session answers hname =>
    obtain ⟨fewer, rfl⟩ := Nat.exists_eq_add_of_lt hcount
    refine ⟨answers, ?_⟩
    rw [run, hname, List.flatMap_nil, List.append_nil]
    rfl
  | @final session key response answers hname hanswer hdone =>
    obtain ⟨fewer, rfl⟩ := Nat.exists_eq_add_of_lt hcount
    refine ⟨answers.tail, ?_⟩
    rw [run_replay_of_some hname hanswer, List.flatMap_singleton]
    exact if_pos hdone
  | @next session last key response answers played hname hdone hrest ih =>
    obtain ⟨fewer, rfl⟩ := Nat.exists_eq_add_of_lt hcount
    obtain ⟨rest, hrun⟩ := ih ((response :: answers).length + fewer)
      (events ++ Round.events ⟨session.question names found key, response⟩)
      (by rw [List.length_cons]; omega)
    refine ⟨rest, ?_⟩
    rw [run_replay_of_some hname rfl, List.flatMap_cons, ← List.append_assoc]
    dsimp only
    rw [if_neg (by simp [hdone])]
    exact hrun

/-- Every answer is that of the list in its place, or the stop after the last one. -/
theorem Replays.responses (hreplays : Replays names found session answers played last) :
    played.map Round.response <+: answers ++ [.stop] := by
  induction hreplays with
  | ended hname => exact List.nil_prefix
  | @final session key response answers hname hanswer hdone =>
    obtain ⟨rest, hrest⟩ := List.head?_eq_some_iff.mp hanswer
    exact ⟨rest, hrest.symm⟩
  | next hname hdone hrest ih => exact List.cons_prefix_cons.mpr ⟨rfl, ih⟩

theorem asked_flatMap_events (played : List Round) :
    asked (played.flatMap Round.events) = played.map Round.question := by
  induction played with
  | nil => rfl
  | cons round rest ih =>
    have hsaved : asked (round.saves.map .saved) = [] := by simp [asked]
    rw [List.flatMap_cons, asked, List.filterMap_append, ← asked, ← asked, ih]
    change (round.question :: asked (round.saves.map .saved)) ++ _ = _
    rw [hsaved]
    rfl

theorem zipWith_mk_eq {responses : List Response}
    (hresponses : played.map Round.response <+: responses) :
    List.zipWith Round.mk (played.map Round.question) responses = played := by
  obtain ⟨rest, rfl⟩ := hresponses
  induction played with
  | nil => rfl
  | cons round played ih => exact congrArg (round :: ·) ih

/-- What is seen of a session, and its rounds. -/
theorem Replays.replay_eq (hreplays : Replays names found (.start existing) answers played last) :
    replay names found existing answers = (played.flatMap Round.events, last) ∧
      rounds names found existing answers = played := by
  obtain ⟨rest, hrun⟩ := hreplays.run_eq _ [] (Nat.lt_succ_self answers.length)
  have hreplay : replay names found existing answers = (played.flatMap Round.events, last) := by
    unfold replay
    rw [hrun]
    rfl
  refine ⟨hreplay, ?_⟩
  rw [rounds, hreplay, asked_flatMap_events, zipWith_mk_eq hreplays.responses]

/-- Settings into which every answer merges what it saves are, in the end, those with all that was
saved. -/
theorem Replays.settings_eq {settings : Session → Entries}
    (hanswered : ∀ (session : Session) (key : String) (response : Response),
      settings (session.answered names key response) =
        (response.saves key).foldl OrderedMap.merge (settings session))
    (hreplays : Replays names found session answers played last) :
    settings last = settingsAfter (settings session) played := by
  induction hreplays with
  | ended hname => rfl
  | final hname hanswer hdone =>
    rw [settingsAfter_cons, hanswered]
    rfl
  | next hname hdone hrest ih =>
    rw [settingsAfter_cons, ih, hanswered]
    rfl

theorem Replays.existing_eq (hreplays : Replays names found session answers played last) :
    last.existing = settingsAfter session.existing played :=
  hreplays.settings_eq fun _ _ _ => existing_answered

theorem Replays.values_eq (hreplays : Replays names found session answers played last) :
    last.values = settingsAfter session.values played :=
  hreplays.settings_eq fun _ _ _ => values_answered

/-- A question is asked when everything before it has been saved. -/
theorem Replays.question_eq {earlier later : List Round} {round : Round}
    (hreplays : Replays names found session answers played last)
    (hplayed : played = earlier ++ round :: later) :
    ∃ (now : Session) (key : String), names[now.index]? = some key ∧
      now.existing = settingsAfter session.existing earlier ∧
        round.question = now.question names found key := by
  induction hreplays generalizing earlier with
  | ended hname => simp at hplayed
  | @final session key response answers hname hanswer hdone =>
    cases earlier with
    | nil =>
      obtain ⟨rfl, -⟩ := List.cons.inj hplayed
      exact ⟨session, key, hname, rfl, rfl⟩
    | cons first earlier => simp at hplayed
  | @next session last key response answers played hname hdone hrest ih =>
    cases earlier with
    | nil =>
      obtain ⟨rfl, -⟩ := List.cons.inj hplayed
      exact ⟨session, key, hname, rfl, rfl⟩
    | cons first earlier =>
      obtain ⟨rfl, hbelow⟩ := List.cons.inj hplayed
      obtain ⟨now, key', hname', hexisting, hquestion⟩ := ih hbelow
      refine ⟨now, key', hname', ?_, hquestion⟩
      rw [hexisting, settingsAfter_cons, existing_answered]
      rfl

/-- With fewer answers a session saves what it would have saved for these answers. -/
theorem Replays.exists_front (hreplays : Replays names found session answers played last)
    (hfront : front <+: answers) :
    ∃ some last, Replays names found session front some last ∧
      ∀ map, settingsAfter map some = settingsAfter map (played.take front.length) := by
  induction hreplays generalizing front with
  | @ended session answers hname => exact ⟨[], session, .ended hname, fun map => by simp⟩
  | @final session key response answers hname hanswer hdone =>
    cases front with
    | nil => exact ⟨_, _, .final hname rfl rfl, fun map => rfl⟩
    | cons first front =>
      obtain ⟨rest, rfl⟩ := hfront
      obtain rfl : first = response := by simpa using hanswer
      exact ⟨_, _, .final hname rfl hdone, fun map => by simp⟩
  | @next session last key response answers played hname hdone hrest ih =>
    cases front with
    | nil => exact ⟨_, _, .final hname rfl rfl, fun map => rfl⟩
    | cons first front =>
      obtain ⟨rfl, hbelow⟩ := List.cons_prefix_cons.mp hfront
      obtain ⟨some, stopped, hsome, hsaves⟩ := ih hbelow
      refine ⟨_, stopped, .next hname hdone hsome, fun map => ?_⟩
      rw [List.length_cons, List.take_succ_cons, settingsAfter_cons, settingsAfter_cons, hsaves]

/-- **Every answer is saved before the next question, and nothing else is.** What is seen of a session
are its rounds; each question shows the settings as the saves before it left them, and a session that
is stopped sooner keeps what was saved until then. -/
theorem replay_saves_every_answer (names : List String) (found : Found) (existing : Entries)
    (answers : List Response) :
    let played := rounds names found existing answers
    let (events, last) := replay names found existing answers
    events = played.flatMap Round.events ∧
      played.map Round.response <+: answers ++ [.stop] ∧
      (∀ earlier round later, played = earlier ++ round :: later →
        names[round.question.index.toNat]? = some round.question.key ∧
          round.question.current =
              ((settingsAfter existing earlier).get? round.question.key).getD "" ∧
            round.question.stats = reconcile found (settingsAfter existing earlier)) ∧
      last.existing = settingsAfter existing played ∧ last.values = settingsAfter ∅ played ∧
      ∀ front, front <+: answers →
        (replay names found existing front).2.existing =
            settingsAfter existing (played.take front.length) ∧
          (replay names found existing front).2.values =
            settingsAfter ∅ (played.take front.length) := by
  obtain ⟨played, last, hreplays⟩ := exists_replays names found (.start existing) answers
  obtain ⟨hreplay, hrounds⟩ := hreplays.replay_eq
  rw [hreplay, hrounds]
  refine ⟨rfl, hreplays.responses, ?_, hreplays.existing_eq, hreplays.values_eq, ?_⟩
  · intro earlier round later hplayed
    obtain ⟨now, key, hname, hexisting, hquestion⟩ := hreplays.question_eq hplayed
    have hnow : now.existing = settingsAfter existing earlier := hexisting
    rw [hquestion, ← hnow]
    exact ⟨hname, rfl, rfl⟩
  · intro front hfront
    obtain ⟨some, stopped, hsome, hsaves⟩ := hreplays.exists_front hfront
    rw [hsome.replay_eq.1, ← hsaves, ← hsaves]
    exact ⟨hsome.existing_eq, hsome.values_eq⟩

end Session

end EnvFill.Fill
