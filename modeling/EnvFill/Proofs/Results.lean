import Mathlib

/-!
# Results that may fail

A computation made of parts that may fail succeeds exactly if they do.
-/

namespace EnvFill

section Results

variable {ε δ α β : Type}

theorem except_throw_eq (error : ε) : (throw error : Except ε α) = .error error := rfl

theorem except_bind_eq_ok_iff {result : Except ε α} {next : α → Except ε β} {b : β} :
    result >>= next = .ok b ↔ ∃ a, result = .ok a ∧ next a = .ok b := by
  cases result with
  | ok a => simp [bind, Except.bind]
  | error error => simp [bind, Except.bind]

theorem except_bind_eq_error_iff {result : Except ε α} {next : α → Except ε β} {error : ε} :
    result >>= next = .error error ↔ result = .error error ∨ ∃ a, result = .ok a ∧ next a = .error error := by
  cases result with
  | ok a => simp [bind, Except.bind]
  | error other => simp [bind, Except.bind]

theorem except_check_eq_ok_iff {check : Except ε Unit} {next : Except ε β} {b : β} :
    (check >>= fun _ => next) = .ok b ↔ check = .ok () ∧ next = .ok b :=
  except_bind_eq_ok_iff.trans Unique.exists_iff

theorem except_map_eq_ok_iff {result : Except ε α} {f : α → β} {b : β} :
    result.map f = .ok b ↔ ∃ a, result = .ok a ∧ f a = b := by
  cases result <;> simp [Except.map]

theorem except_map_eq_error_iff {result : Except ε α} {f : α → β} {error : ε} :
    result.map f = .error error ↔ result = .error error := by
  cases result <;> simp [Except.map]

theorem except_mapError_eq_error_iff {result : Except ε α} {f : ε → δ} {error : δ} :
    result.mapError f = .error error ↔ ∃ cause, result = .error cause ∧ f cause = error := by
  cases result <;> simp [Except.mapError]

theorem mapM_eq_ok_iff {f : α → Except ε β} {g : α → β} {P : α → Prop} {items : List α}
    (hf : ∀ a ∈ items, ∀ b, f a = .ok b ↔ P a ∧ b = g a) {results : List β} :
    items.mapM f = .ok results ↔ (∀ a ∈ items, P a) ∧ results = items.map g := by
  induction items generalizing results with
  | nil => simp [pure, Except.pure, eq_comm]
  | cons a items ih =>
    have ih := @ih fun other hother => hf other (List.mem_cons_of_mem a hother)
    simp only [List.mapM_cons, except_bind_eq_ok_iff, hf a List.mem_cons_self, ih]
    constructor
    · rintro ⟨_, ⟨ha, rfl⟩, _, ⟨hitems, rfl⟩, hresults⟩
      exact ⟨List.forall_mem_cons.mpr ⟨ha, hitems⟩, (Except.ok.inj hresults).symm⟩
    · rintro ⟨hall, rfl⟩
      obtain ⟨ha, hitems⟩ := List.forall_mem_cons.mp hall
      exact ⟨_, ⟨ha, rfl⟩, _, ⟨hitems, rfl⟩, rfl⟩

theorem filterM_eq_ok_iff {f : α → Except ε Bool} {p : α → Bool} {P : α → Prop} {items : List α}
    (hf : ∀ a ∈ items, ∀ b, f a = .ok b ↔ P a ∧ b = p a) {kept : List α} :
    items.filterM f = .ok kept ↔ (∀ a ∈ items, P a) ∧ kept = items.filter p := by
  have hgather : ∀ gathered later : List α, items.filterAuxM f gathered = .ok later ↔
      (∀ a ∈ items, P a) ∧ later = (items.filter p).reverse ++ gathered := by
    induction items with
    | nil => simp [List.filterAuxM, pure, Except.pure, eq_comm]
    | cons a items ih =>
      intro gathered later
      have ih := ih fun other hother => hf other (List.mem_cons_of_mem a hother)
      simp only [List.filterAuxM, except_bind_eq_ok_iff, hf a List.mem_cons_self, ih,
        List.forall_mem_cons]
      constructor
      · rintro ⟨_, ⟨ha, rfl⟩, hitems, rfl⟩
        refine ⟨⟨ha, hitems⟩, ?_⟩
        cases hp : p a <;> simp [hp]
      · rintro ⟨⟨ha, hitems⟩, rfl⟩
        refine ⟨_, ⟨ha, rfl⟩, hitems, ?_⟩
        cases hp : p a <;> simp [hp]
  rw [List.filterM, except_bind_eq_ok_iff]
  simp only [hgather, List.append_nil]
  constructor
  · rintro ⟨_, ⟨hitems, rfl⟩, hkept⟩
    exact ⟨hitems, by simpa using (Except.ok.inj hkept).symm⟩
  · rintro ⟨hitems, rfl⟩
    exact ⟨_, ⟨hitems, rfl⟩, congrArg Except.ok (List.reverse_reverse _)⟩

/-- Each result is that of its item. -/
theorem forall₂_of_mapM {f : α → Except ε β} {items : List α} {results : List β}
    (hall : items.mapM f = .ok results) :
    List.Forall₂ (fun item result => f item = .ok result) items results := by
  induction items generalizing results with
  | nil =>
    obtain rfl : [] = results := Except.ok.inj hall
    exact .nil
  | cons item items ih =>
    rw [List.mapM_cons] at hall
    obtain ⟨first, hfirst, hrest⟩ := except_bind_eq_ok_iff.mp hall
    obtain ⟨rest, hlaters, hcons⟩ := except_bind_eq_ok_iff.mp hrest
    obtain rfl : first :: rest = results := Except.ok.inj hcons
    exact .cons hfirst (ih hlaters)

theorem exists_of_mem_mapM {f : α → Except ε β} {items : List α} {results : List β}
    (hall : items.mapM f = .ok results) {result : β} (hresult : result ∈ results) :
    ∃ item ∈ items, f item = .ok result := by
  obtain ⟨index, hindex, rfl⟩ := List.getElem_of_mem hresult
  have hresults := forall₂_of_mapM hall
  have hitem : index < items.length := hresults.length_eq ▸ hindex
  exact ⟨items[index], List.getElem_mem hitem, hresults.get hitem hindex⟩

end Results

end EnvFill
