import EnvFill.Command.World
import Mathlib

/-!
# How actions end

An action on a state succeeds with a result or fails with an error, and leaves a state either way.
The lemmas take an action apart: how the whole ended says how its parts did.
-/

namespace EnvFill

section Action

variable {ε σ α β : Type} {s t : σ}

def outcome (action : ExceptT ε (StateM σ) α) (s : σ) : Except ε α × σ := action.run.run s

/-- The action succeeds from `s`: it gives `a` and leaves `t`. -/
def Succeeds (action : ExceptT ε (StateM σ) α) (s : σ) (a : α) (t : σ) : Prop :=
  outcome action s = (.ok a, t)

def Fails (action : ExceptT ε (StateM σ) α) (s : σ) (error : ε) (t : σ) : Prop :=
  outcome action s = (.error error, t)

theorem Succeeds.unique {action : ExceptT ε (StateM σ) α} {a b : α} {u : σ}
    (ha : Succeeds action s a t) (hb : Succeeds action s b u) : a = b ∧ t = u := by
  have heq := Prod.mk.inj (ha.symm.trans hb)
  exact ⟨Except.ok.inj heq.1, heq.2⟩

theorem succeeds_or_fails (action : ExceptT ε (StateM σ) α) (s : σ) :
    (∃ a t, Succeeds action s a t) ∨ ∃ error t, Fails action s error t := by
  unfold Succeeds Fails
  rcases outcome action s with ⟨result, t⟩
  cases result with
  | ok a => exact .inl ⟨a, t, rfl⟩
  | error error => exact .inr ⟨error, t, rfl⟩

theorem outcome_pure (a : α) :
    outcome (pure a : ExceptT ε (StateM σ) α) s = (.ok a, s) := rfl

theorem outcome_throw (error : ε) :
    outcome (throw error : ExceptT ε (StateM σ) α) s = (.error error, s) := rfl

theorem outcome_bind (action : ExceptT ε (StateM σ) α) (next : α → ExceptT ε (StateM σ) β) (s : σ) :
    outcome (action >>= next) s =
      match outcome action s with
      | (.ok a, t) => outcome (next a) t
      | (.error error, t) => (.error error, t) := by
  have hbind : outcome (action >>= next) s =
      (ExceptT.bindCont next (outcome action s).1).run (outcome action s).2 := rfl
  rw [hbind]
  rcases outcome action s with ⟨result, t⟩
  cases result <;> rfl

theorem outcome_tryCatch_of_ok {action : ExceptT ε (StateM σ) α} {a : α}
    (haction : outcome action s = (.ok a, t)) (handle : ε → ExceptT ε (StateM σ) α) :
    outcome (tryCatch action handle) s = (.ok a, t) := by
  have hrun : action.run.run s = (.ok a, t) := haction
  rw [outcome, ExceptT.run_tryCatch, StateT.run_bind, hrun]
  rfl

theorem outcome_tryCatch_of_error {action : ExceptT ε (StateM σ) α} {error : ε}
    (haction : outcome action s = (.error error, t)) (handle : ε → ExceptT ε (StateM σ) α) :
    outcome (tryCatch action handle) s = outcome (handle error) t := by
  have hrun : action.run.run s = (.error error, t) := haction
  rw [outcome, ExceptT.run_tryCatch, StateT.run_bind, hrun]
  rfl

@[simp]
theorem succeeds_pure_iff {a b : α} :
    Succeeds (pure a : ExceptT ε (StateM σ) α) s b t ↔ a = b ∧ s = t := by
  simp [Succeeds, outcome_pure]

@[simp]
theorem not_fails_pure {a : α} {error : ε} :
    ¬Fails (pure a : ExceptT ε (StateM σ) α) s error t := by
  simp [Fails, outcome_pure]

@[simp]
theorem not_succeeds_throw {error : ε} {a : α} :
    ¬Succeeds (throw error : ExceptT ε (StateM σ) α) s a t := by
  simp [Succeeds, outcome_throw]

@[simp]
theorem fails_throw_iff {error other : ε} :
    Fails (throw error : ExceptT ε (StateM σ) α) s other t ↔ error = other ∧ s = t := by
  simp [Fails, outcome_throw]

theorem succeeds_bind_iff {action : ExceptT ε (StateM σ) α} {next : α → ExceptT ε (StateM σ) β}
    {b : β} :
    Succeeds (action >>= next) s b t ↔
      ∃ a u, Succeeds action s a u ∧ Succeeds (next a) u b t := by
  unfold Succeeds
  rw [outcome_bind]
  rcases outcome action s with ⟨result, u⟩
  cases result with
  | ok a =>
    constructor
    · exact fun h => ⟨a, u, rfl, h⟩
    · rintro ⟨_, _, ⟨⟩, h⟩
      exact h
  | error error => simp

theorem fails_bind_iff {action : ExceptT ε (StateM σ) α} {next : α → ExceptT ε (StateM σ) β}
    {error : ε} :
    Fails (action >>= next) s error t ↔
      Fails action s error t ∨ ∃ a u, Succeeds action s a u ∧ Fails (next a) u error t := by
  unfold Fails Succeeds
  rw [outcome_bind]
  rcases outcome action s with ⟨result, u⟩
  cases result with
  | ok a =>
    constructor
    · exact fun h => .inr ⟨a, u, rfl, h⟩
    · rintro (h | ⟨_, _, ⟨⟩, h⟩)
      · simp at h
      · exact h
  | error other => simp

theorem succeeds_tryCatch_iff {action : ExceptT ε (StateM σ) α}
    {handle : ε → ExceptT ε (StateM σ) α} {a : α} :
    Succeeds (tryCatch action handle) s a t ↔
      Succeeds action s a t ∨ ∃ error u, Fails action s error u ∧ Succeeds (handle error) u a t := by
  unfold Succeeds Fails
  rcases houtcome : outcome action s with ⟨result, u⟩
  cases result with
  | ok b => simp [outcome_tryCatch_of_ok houtcome]
  | error error =>
    rw [outcome_tryCatch_of_error houtcome]
    constructor
    · exact fun h => .inr ⟨error, u, rfl, h⟩
    · rintro (h | ⟨_, _, ⟨⟩, h⟩)
      · simp at h
      · exact h

theorem fails_tryCatch_iff {action : ExceptT ε (StateM σ) α}
    {handle : ε → ExceptT ε (StateM σ) α} {error : ε} :
    Fails (tryCatch action handle) s error t ↔
      ∃ other u, Fails action s other u ∧ Fails (handle other) u error t := by
  unfold Fails
  rcases houtcome : outcome action s with ⟨result, u⟩
  cases result with
  | ok b => simp [outcome_tryCatch_of_ok houtcome]
  | error other =>
    rw [outcome_tryCatch_of_error houtcome]
    constructor
    · exact fun h => ⟨other, u, rfl, h⟩
    · rintro ⟨_, _, ⟨⟩, h⟩
      exact h

@[simp]
theorem succeeds_get_iff {a : σ} :
    Succeeds (get : ExceptT ε (StateM σ) σ) s a t ↔ a = s ∧ t = s := by
  have hget : outcome (get : ExceptT ε (StateM σ) σ) s = (.ok s, s) := rfl
  simp [Succeeds, hget, eq_comm]

@[simp]
theorem not_fails_get {error : ε} : ¬Fails (get : ExceptT ε (StateM σ) σ) s error t := by
  have hget : outcome (get : ExceptT ε (StateM σ) σ) s = (.ok s, s) := rfl
  simp [Fails, hget]

@[simp]
theorem succeeds_modify_iff {f : σ → σ} {a : Unit} :
    Succeeds (modify f : ExceptT ε (StateM σ) Unit) s a t ↔ t = f s := by
  have hmodify : outcome (modify f : ExceptT ε (StateM σ) Unit) s = (.ok (), f s) := rfl
  simp [Succeeds, hmodify, eq_comm]

@[simp]
theorem not_fails_modify {f : σ → σ} {error : ε} :
    ¬Fails (modify f : ExceptT ε (StateM σ) Unit) s error t := by
  have hmodify : outcome (modify f : ExceptT ε (StateM σ) Unit) s = (.ok (), f s) := rfl
  simp [Fails, hmodify]

/-- An action for each of a list, one after another. -/
theorem succeeds_mapM_cons_iff {f : α → ExceptT ε (StateM σ) β} {a : α} {rest : List α}
    {results : List β} :
    Succeeds ((a :: rest).mapM f) s results t ↔
      ∃ b u tail, Succeeds (f a) s b u ∧ Succeeds (rest.mapM f) u tail t ∧ results = b :: tail := by
  rw [List.mapM_cons]
  simp only [succeeds_bind_iff, succeeds_pure_iff]
  constructor
  · rintro ⟨b, u, hfirst, tail, _, hrest, rfl, rfl⟩
    exact ⟨b, u, tail, hfirst, hrest, rfl⟩
  · rintro ⟨b, u, tail, hfirst, hrest, rfl⟩
    exact ⟨b, u, hfirst, tail, t, hrest, rfl, rfl⟩

end Action

namespace Storage.Edit

variable {ε δ α : Type} {disk after : Disk}

@[simp]
theorem succeeds_look_iff {question : Disk → Except ε α} {a : α} :
    Succeeds (look question) disk a after ↔ question disk = .ok a ∧ after = disk := by
  simp only [look, succeeds_bind_iff, succeeds_get_iff]
  constructor
  · rintro ⟨_, _, ⟨rfl, rfl⟩, h⟩
    split at h
    · rename_i hquestion
      obtain ⟨rfl, rfl⟩ := succeeds_pure_iff.mp h
      exact ⟨hquestion, rfl⟩
    · exact absurd h not_succeeds_throw
  · rintro ⟨hquestion, rfl⟩
    refine ⟨_, _, ⟨rfl, rfl⟩, ?_⟩
    rw [hquestion]
    exact succeeds_pure_iff.mpr ⟨rfl, rfl⟩

@[simp]
theorem fails_look_iff {question : Disk → Except ε α} {error : ε} :
    Fails (look question) disk error after ↔ question disk = .error error ∧ after = disk := by
  simp only [look, fails_bind_iff, succeeds_get_iff, not_fails_get, false_or]
  constructor
  · rintro ⟨_, _, ⟨rfl, rfl⟩, h⟩
    split at h
    · exact absurd h not_fails_pure
    · rename_i hquestion
      obtain ⟨rfl, rfl⟩ := fails_throw_iff.mp h
      exact ⟨hquestion, rfl⟩
  · rintro ⟨hquestion, rfl⟩
    refine ⟨_, _, ⟨rfl, rfl⟩, ?_⟩
    rw [hquestion]
    exact fails_throw_iff.mpr ⟨rfl, rfl⟩

@[simp]
theorem succeeds_mapError_iff {f : ε → δ} {edit : Edit ε α} {a : α} :
    Succeeds (edit.mapError f) disk a after ↔ Succeeds edit disk a after := by
  have hrun : outcome (edit.mapError f) disk =
      ((outcome edit disk).1.mapError f, (outcome edit disk).2) := rfl
  unfold Succeeds
  rw [hrun]
  rcases outcome edit disk with ⟨result, after'⟩
  cases result <;> simp [Except.mapError]

@[simp]
theorem fails_mapError_iff {f : ε → δ} {edit : Edit ε α} {error : δ} :
    Fails (edit.mapError f) disk error after ↔ ∃ cause, Fails edit disk cause after ∧ f cause = error := by
  have hrun : outcome (edit.mapError f) disk =
      ((outcome edit disk).1.mapError f, (outcome edit disk).2) := rfl
  unfold Fails
  rw [hrun]
  rcases outcome edit disk with ⟨result, after'⟩
  cases result <;> simp [Except.mapError, and_comm]

@[simp]
theorem succeeds_putAt_iff {place : Location} {node : Node} {a : Unit} :
    Succeeds (putAt place node) disk a after ↔ after = disk.put place node :=
  succeeds_modify_iff

@[simp]
theorem not_fails_putAt {place : Location} {node : Node} {error : DiskError} :
    ¬Fails (putAt place node) disk error after :=
  not_fails_modify

end Storage.Edit

end EnvFill
