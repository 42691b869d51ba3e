import EnvFill.Proofs.CommandParts

/-!
# Two runs side by side

Two computations are compared step by step: they fail in the same way, or both go on with results that
stand in a relation. For parts of a command this says that two disks cannot be told apart by what is
shown and written.
-/

namespace EnvFill

section Results

variable {ε α β γ δ : Type} {R : α → β → Prop} {S : γ → δ → Prop}

inductive Matching (R : α → β → Prop) : Except ε α → Except ε β → Prop where
  | ok {a : α} {b : β} (hab : R a b) : Matching R (.ok a) (.ok b)
  | error (fault : ε) : Matching R (.error fault) (.error fault)

theorem matching_eq_iff {one two : Except ε α} : Matching Eq one two ↔ one = two := by
  constructor
  · rintro (⟨rfl⟩ | _)
    · rfl
    · rfl
  · rintro rfl
    cases one with
    | ok a => exact .ok rfl
    | error fault => exact .error fault

theorem Matching.mono {S : α → β → Prop} {one : Except ε α} {two : Except ε β} (hmatch : Matching R one two)
    (hmono : ∀ a b, R a b → S a b) : Matching S one two := by
  cases hmatch with
  | ok hab => exact .ok (hmono _ _ hab)
  | error fault => exact .error fault

theorem Matching.results {one : Except ε α} {two : Except ε β} (hmatch : Matching R one two) :
    Matching (fun a b => one = .ok a ∧ two = .ok b ∧ R a b) one two := by
  cases hmatch with
  | ok hab => exact .ok ⟨rfl, rfl, hab⟩
  | error fault => exact .error fault

theorem Matching.bind {one : Except ε α} {two : Except ε β} {f : α → Except ε γ} {g : β → Except ε δ}
    (hmatch : Matching R one two) (hnext : ∀ a b, R a b → Matching S (f a) (g b)) :
    Matching S (one >>= f) (two >>= g) := by
  cases hmatch with
  | ok hab => exact hnext _ _ hab
  | error fault => exact .error fault

theorem Matching.map {one : Except ε α} {two : Except ε β} {f : α → γ} {g : β → δ}
    (hmatch : Matching R one two) (hnext : ∀ a b, R a b → S (f a) (g b)) :
    Matching S (one.map f) (two.map g) := by
  cases hmatch with
  | ok hab => exact .ok (hnext _ _ hab)
  | error fault => exact .error fault

theorem Matching.followed {one : Except Storage.DiskError α} {two : Except Storage.DiskError β}
    (hmatch : Matching R one two) : Matching R (followed one) (followed two) := by
  cases hmatch with
  | ok hab => exact .ok hab
  | error fault => exact .error _

theorem Matching.mapM {items : List γ} {f : γ → Except ε α} {g : γ → Except ε β}
    (hitems : ∀ item ∈ items, Matching R (f item) (g item)) :
    Matching (List.Forall₂ R) (items.mapM f) (items.mapM g) := by
  induction items with
  | nil => exact .ok .nil
  | cons item items ih =>
    rw [List.mapM_cons, List.mapM_cons]
    refine (hitems item List.mem_cons_self).bind fun a b hab => ?_
    refine (ih fun other hother => hitems other (List.mem_cons_of_mem item hother)).bind ?_
    exact fun as bs hrest => .ok (.cons hab hrest)

end Results

namespace Command

open Storage Procedure

variable {α β γ δ : Type} {R : α → β → Prop} {S : γ → δ → Prop} {disk other : Disk}

def World.on (world : World) (disk : Disk) : World := { world with disk := disk }

/-- From worlds that are the same but for their disks, the two parts of a command come to matching
results and to worlds that are the same but for these disks. -/
def RunAlike (disk other : Disk) (R : α → β → Prop) (one : Procedure α) (two : Procedure β) : Prop :=
  ∀ world : World, ∃ (a : Except Error α) (b : Except Error β) (after : World), Matching R a b ∧
    outcome one (world.on disk) = (a, after.on disk) ∧
      outcome two (world.on other) = (b, after.on other)

theorem runAlike_pure {a : α} {b : β} (hab : R a b) : RunAlike disk other R (pure a) (pure b) :=
  fun world => ⟨_, _, world, .ok hab, rfl, rfl⟩

theorem RunAlike.bind {one : Procedure α} {two : Procedure β} {f : α → Procedure γ} {g : β → Procedure δ}
    (halike : RunAlike disk other R one two) (hnext : ∀ a b, R a b → RunAlike disk other S (f a) (g b)) :
    RunAlike disk other S (one >>= f) (two >>= g) := by
  intro world
  obtain ⟨a, b, middle, hmatch, hone, htwo⟩ := halike world
  rw [outcome_bind, outcome_bind, hone, htwo]
  cases hmatch with
  | ok hab => exact hnext _ _ hab middle
  | error fault => exact ⟨_, _, middle, .error fault, rfl, rfl⟩

/-- A conversation knows nothing of the disk. -/
theorem runAlike_talk (dialogue : Screen.Dialogue α) :
    RunAlike disk other Eq (talk dialogue) (talk dialogue) :=
  fun world => ⟨_, _, { world with terminal := (outcome dialogue world.terminal).2 },
    matching_eq_iff.mpr rfl, outcome_talk dialogue _, outcome_talk dialogue _⟩

theorem runAlike_write (text : String) : RunAlike disk other Eq (write text) (write text) :=
  fun world => ⟨_, _, { world with output := world.output ++ text }, .ok rfl, rfl, rfl⟩

theorem runAlike_lookUp {f : Disk → Except Error α} {g : Disk → Except Error β}
    (hmatch : Matching R (f disk) (g other)) : RunAlike disk other R (lookUp f) (lookUp g) :=
  fun world => ⟨_, _, world, hmatch, outcome_lookUp f _, outcome_lookUp g _⟩

theorem RunAlike.attempt {one : Procedure α} {two : Procedure β} (halike : RunAlike disk other R one two) :
    RunAlike disk other (Option.Rel R) (attempt one) (attempt two) := by
  intro world
  obtain ⟨a, b, after, hmatch, hone, htwo⟩ := halike world
  rw [outcome_attempt, outcome_attempt, hone, htwo]
  cases hmatch with
  | ok hab => exact ⟨_, _, after, .ok (.some hab), rfl, rfl⟩
  | error fault =>
    dsimp only
    by_cases hreported : fault.isReported = true
    · rw [if_pos hreported, if_pos hreported]
      exact ⟨_, _, { after with terminal := { after.terminal with
        events := after.terminal.events ++ [errorLine fault] } }, .ok .none, rfl, rfl⟩
    · rw [if_neg hreported, if_neg hreported]
      exact ⟨_, _, after, .error fault, rfl, rfl⟩

end Command

end EnvFill
