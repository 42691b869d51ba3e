import EnvFill.Fill.Session
import EnvFill.Proofs.Outcome

/-!
# Runs of a session

A session seen as its answers: one question after another is asked, what the answer says is saved,
and the last answer or the end of the names ends it. If every question uses something up, the bound
on the rounds is never met.
-/

namespace EnvFill.Fill.Session

open EnvFile

variable {ε σ : Type} {names : List String} {found : Found} {key : String}
  {ask : Question → ExceptT ε (StateM σ) Response}
  {save : Entries → Entries → ExceptT ε (StateM σ) Entries}
  {session last : Session} {s t u v : σ} {response : Response} {answers : List Response}
  {existing : Entries} {rounds : Nat}

def stepOf (names : List String) (session : Session) (key : String) (response : Response) : Step :=
  Step.of key session.index names.length response

def saveStep {m : Type → Type} [Monad m] (save : Entries → Entries → m Entries) (session : Session)
    (step : Step) : m Entries :=
  if step.writes.isEmpty then pure session.existing else save session.existing step.writes

structure Answers (names : List String) (found : Found)
    (ask : Question → ExceptT ε (StateM σ) Response)
    (save : Entries → Entries → ExceptT ε (StateM σ) Entries) (session : Session) (s : σ)
    (key : String) (response : Response) (existing : Entries) (u : σ) : Prop where
  name : names[session.index]? = some key
  saved : ∃ t, Succeeds (ask (session.question names found key)) s response t ∧
    Succeeds (saveStep save session (stepOf names session key response)) t existing u

/-- The session goes from `session` and the state `s` to `last` and the state `t`, with `answers`
given one after another. -/
inductive Runs (names : List String) (found : Found)
    (ask : Question → ExceptT ε (StateM σ) Response)
    (save : Entries → Entries → ExceptT ε (StateM σ) Entries) :
    Session → σ → List Response → Session → σ → Prop where
  | ended {session : Session} {s : σ} (hname : names[session.index]? = none) :
      Runs names found ask save session s [] session s
  | final {session : Session} {s u : σ} {key : String} {response : Response} {existing : Entries}
      (hanswer : Answers names found ask save session s key response existing u)
      (hdone : (stepOf names session key response).done = true) :
      Runs names found ask save session s [response]
        (session.after (stepOf names session key response) existing) u
  | next {session last : Session} {s u v : σ} {key : String} {response : Response}
      {existing : Entries} {answers : List Response}
      (hanswer : Answers names found ask save session s key response existing u)
      (hdone : (stepOf names session key response).done = false)
      (hrest : Runs names found ask save
        (session.after (stepOf names session key response) existing) u answers last v) :
      Runs names found ask save session s (response :: answers) last v

theorem succeeds_run_of_none (hname : names[session.index]? = none) :
    Succeeds (run names found ask save (rounds + 1) session) s last v ↔ session = last ∧ s = v := by
  rw [run, hname]
  exact succeeds_pure_iff

theorem run_of_some {m : Type → Type} [Monad m] {ask : Question → m Response}
    {save : Entries → Entries → m Entries} (hname : names[session.index]? = some key) :
    run names found ask save (rounds + 1) session =
      ask (session.question names found key) >>= fun response =>
        saveStep save session (stepOf names session key response) >>= fun existing =>
          if (stepOf names session key response).done then
            pure (session.after (stepOf names session key response) existing)
          else run names found ask save rounds
            (session.after (stepOf names session key response) existing) := by
  rw [run, hname]
  refine bind_congr fun response => ?_
  unfold saveStep stepOf
  by_cases hempty :
      (Step.of key session.index names.length response).writes.isEmpty = true
  · simp only [if_pos hempty]
  · simp only [if_neg hempty]

/-- The first round of a session, and the rest. -/
theorem succeeds_run_of_some (hname : names[session.index]? = some key) :
    Succeeds (run names found ask save (rounds + 1) session) s last v ↔
      ∃ response existing u, Answers names found ask save session s key response existing u ∧
        if (stepOf names session key response).done then
          session.after (stepOf names session key response) existing = last ∧ u = v
        else Succeeds (run names found ask save rounds
          (session.after (stepOf names session key response) existing)) u last v := by
  rw [run_of_some hname, succeeds_bind_iff]
  constructor
  · rintro ⟨response, t, hask, hrest⟩
    obtain ⟨existing, u, hsave, hrest⟩ := succeeds_bind_iff.mp hrest
    refine ⟨response, existing, u, ⟨hname, t, hask, hsave⟩, ?_⟩
    split at hrest
    · rename_i hdone
      rw [if_pos hdone]
      exact succeeds_pure_iff.mp hrest
    · rename_i hdone
      rwa [if_neg hdone]
  · rintro ⟨response, existing, u, ⟨-, t, hask, hsave⟩, hrest⟩
    refine ⟨response, t, hask, succeeds_bind_iff.mpr ⟨existing, u, hsave, ?_⟩⟩
    split
    · rename_i hdone
      rw [if_pos hdone] at hrest
      exact succeeds_pure_iff.mpr hrest
    · rename_i hdone
      rwa [if_neg hdone] at hrest

/-- With more rounds than answers, the session runs as its answers say. -/
theorem Runs.succeeds_run (hruns : Runs names found ask save session s answers last v)
    (hrounds : answers.length < rounds) :
    Succeeds (run names found ask save rounds session) s last v := by
  induction hruns generalizing rounds with
  | ended hname =>
    obtain ⟨fewer, rfl⟩ := Nat.exists_eq_add_of_lt hrounds
    exact (succeeds_run_of_none hname).mpr ⟨rfl, rfl⟩
  | final hanswer hdone =>
    obtain ⟨fewer, rfl⟩ := Nat.exists_eq_add_of_lt hrounds
    refine (succeeds_run_of_some hanswer.name).mpr ⟨_, _, _, hanswer, ?_⟩
    rw [if_pos hdone]
    exact ⟨rfl, rfl⟩
  | next hanswer hdone hrest ih =>
    obtain ⟨fewer, rfl⟩ := Nat.exists_eq_add_of_lt hrounds
    refine (succeeds_run_of_some hanswer.name).mpr ⟨_, _, _, hanswer, ?_⟩
    rw [if_neg (by simp [hdone])]
    refine ih ?_
    rw [List.length_cons]
    omega

section Size

variable {size : σ → Nat}
  (hask : ∀ question s response t, Succeeds (ask question) s response t → size t < size s)
  (hsave : ∀ existing writes s merged t, Succeeds (save existing writes) s merged t →
    size t ≤ size s)

include hask hsave

theorem Answers.size_lt (hanswer : Answers names found ask save session s key response existing u) :
    size u < size s := by
  obtain ⟨-, t, hasked, hsaved⟩ := hanswer
  have hless := hask _ _ _ _ hasked
  unfold saveStep at hsaved
  split at hsaved
  · obtain ⟨-, rfl⟩ := succeeds_pure_iff.mp hsaved
    exact hless
  · exact (hsave _ _ _ _ _ hsaved).trans_lt hless

theorem Runs.length_le (hruns : Runs names found ask save session s answers last v) :
    answers.length ≤ size s := by
  induction hruns with
  | ended hname => exact Nat.zero_le _
  | final hanswer hdone => exact (Nat.zero_le _).trans_lt (hanswer.size_lt hask hsave)
  | next hanswer hdone hrest ih => exact ih.trans_lt (hanswer.size_lt hask hsave)

theorem exists_runs_of_succeeds (hrounds : size s < rounds)
    (hrun : Succeeds (run names found ask save rounds session) s last v) :
    ∃ answers, Runs names found ask save session s answers last v := by
  induction rounds generalizing session s with
  | zero => exact absurd hrounds (Nat.not_lt_zero _)
  | succ rounds ih =>
    cases hname : names[session.index]? with
    | none =>
      obtain ⟨rfl, rfl⟩ := (succeeds_run_of_none hname).mp hrun
      exact ⟨[], .ended hname⟩
    | some key =>
      obtain ⟨response, existing, u, hanswer, hrest⟩ := (succeeds_run_of_some hname).mp hrun
      split at hrest
      · rename_i hdone
        obtain ⟨rfl, rfl⟩ := hrest
        exact ⟨[response], .final hanswer hdone⟩
      · rename_i hdone
        have hless := hanswer.size_lt hask hsave
        obtain ⟨answers, hruns⟩ := ih (by omega) hrest
        exact ⟨response :: answers, .next hanswer (by simpa using hdone) hruns⟩

/-- **A session is its answers.** With more rounds than the state has room for questions, the bound
on them is never met. -/
theorem succeeds_run_iff (hrounds : size s < rounds) :
    Succeeds (run names found ask save rounds session) s last v ↔
      ∃ answers, Runs names found ask save session s answers last v := by
  refine ⟨exists_runs_of_succeeds hask hsave hrounds, ?_⟩
  rintro ⟨answers, hruns⟩
  exact hruns.succeeds_run ((hruns.length_le hask hsave).trans_lt hrounds)

end Size

end EnvFill.Fill.Session
