import EnvFill.Regex.Basic

/-!
Whether an expression matches anywhere in a text. A mark is set or not at every place of the text:
before each character and after the last one. The marks of the places that matches begin at are
carried through the expression to the places that they end at, which takes as many steps as the text
is long for each part of the expression. `occursIn_iff` says that this agrees with the matches.
-/

namespace EnvFill.Regex

def moveOver (accepts : Char → Bool) (text : List Char) (marks : List Bool) : List Bool :=
  false :: List.zipWith (fun mark c => mark && accepts c) marks text

/-- The marks spread over characters with the property. `carried` says that a mark reaches the first
place from before it. -/
def spreadOver (accepts : Char → Bool) (carried : Bool) : List Char → List Bool → List Bool
  | [], marks => marks.map (carried || ·)
  | _ :: _, [] => []
  | c :: text, mark :: marks =>
    (carried || mark) :: spreadOver accepts ((carried || mark) && accepts c) text marks

def keepWhere (holds : Option Char → List Char → Bool) (before : Option Char) :
    List Char → List Bool → List Bool
  | [], marks => marks.map (· && holds before [])
  | _ :: _, [] => []
  | c :: text, mark :: marks =>
    (mark && holds before (c :: text)) :: keepWhere holds (some c) text marks

/-- Marks the places of the text that matches from marked places end at. -/
def ends (text : List Char) : Regex → List Bool → List Bool
  | .empty, marks => marks
  | .one accepts, marks => moveOver accepts text marks
  | .many accepts, marks => spreadOver accepts false text marks
  | .seq first second, marks => ends text second (ends text first marks)
  | .alt left right, marks => List.zipWith (· || ·) (ends text left marks) (ends text right marks)
  | .place holds, marks => keepWhere holds none text marks
  | .group body, marks => ends text body marks

def occursIn (regex : Regex) (text : List Char) : Bool :=
  (ends text regex (List.replicate (text.length + 1) true)).any id

theorem length_spreadOver {accepts : Char → Bool} {carried : Bool} {text : List Char}
    {marks : List Bool} (h : marks.length = text.length + 1) :
    (spreadOver accepts carried text marks).length = text.length + 1 := by
  induction text generalizing carried marks with
  | nil => simpa [spreadOver] using h
  | cons c text ih =>
    cases marks with
    | nil => simp at h
    | cons mark marks => simpa [spreadOver] using ih (by simpa using h)

theorem length_keepWhere {holds : Option Char → List Char → Bool} {before : Option Char}
    {text : List Char} {marks : List Bool} (h : marks.length = text.length + 1) :
    (keepWhere holds before text marks).length = text.length + 1 := by
  induction text generalizing before marks with
  | nil => simpa [keepWhere] using h
  | cons c text ih =>
    cases marks with
    | nil => simp at h
    | cons mark marks => simpa [keepWhere] using ih (by simpa using h)

theorem length_ends {regex : Regex} {text : List Char} {marks : List Bool}
    (h : marks.length = text.length + 1) :
    (ends text regex marks).length = text.length + 1 := by
  induction regex generalizing marks with
  | empty => exact h
  | one accepts => simp [ends, moveOver, h]
  | many accepts => exact length_spreadOver h
  | seq first second ihFirst ihSecond => exact ihSecond (ihFirst h)
  | alt left right ihLeft ihRight => simp [ends, ihLeft h, ihRight h]
  | place holds => exact length_keepWhere h
  | group body ih => exact ih h

theorem getElem?_spreadOver {accepts : Char → Bool} {carried : Bool} {text : List Char}
    {marks : List Bool} (h : marks.length = text.length + 1) (stop : Nat) :
    (spreadOver accepts carried text marks)[stop]? = some true ↔
      stop ≤ text.length ∧ ((carried = true ∧ (text.take stop).all accepts = true) ∨
        ∃ start ≤ stop, marks[start]? = some true ∧
          ((text.drop start).take (stop - start)).all accepts = true) := by
  induction text generalizing carried marks stop with
  | nil =>
    obtain ⟨mark, rfl⟩ := List.length_eq_one_iff.1 h
    cases stop with
    | zero => simp [spreadOver]
    | succ stop => simp [spreadOver]
  | cons c text ih =>
    cases marks with
    | nil => simp at h
    | cons mark marks =>
      have h : marks.length = text.length + 1 := by simpa using h
      cases stop with
      | zero => simp [spreadOver]
      | succ stop =>
        rw [spreadOver, List.getElem?_cons_succ, ih h]
        simp only [List.length_cons, Nat.add_le_add_iff_right, List.take_succ_cons, List.all_cons,
          Bool.and_eq_true, Bool.or_eq_true]
        refine and_congr_right fun _ => ?_
        constructor
        · rintro (⟨⟨hcarried | hmark, hc⟩, hall⟩ | ⟨start, hle, hstart, hall⟩)
          · exact .inl ⟨hcarried, hc, hall⟩
          · exact .inr ⟨0, Nat.zero_le _, by simpa using hmark, by simpa [hc] using hall⟩
          · exact .inr ⟨start + 1, Nat.succ_le_succ hle, by simpa using hstart,
              by simpa using hall⟩
        · rintro (⟨hcarried, hc, hall⟩ | ⟨start, hle, hstart, hall⟩)
          · exact .inl ⟨⟨.inl hcarried, hc⟩, hall⟩
          · cases start with
            | zero =>
              have hmark : mark = true := by simpa using hstart
              have hall : accepts c = true ∧ (text.take stop).all accepts = true := by
                simpa using hall
              exact .inl ⟨⟨.inr hmark, hall.1⟩, hall.2⟩
            | succ start =>
              exact .inr ⟨start, Nat.le_of_succ_le_succ hle, by simpa using hstart,
                by simpa using hall⟩

theorem getElem?_keepWhere {holds : Option Char → List Char → Bool} {before : Option Char}
    {text : List Char} {marks : List Bool} (h : marks.length = text.length + 1) (stop : Nat) :
    (keepWhere holds before text marks)[stop]? = some true ↔
      marks[stop]? = some true ∧
        holds (lastOr before (text.take stop)) (text.drop stop) = true := by
  induction text generalizing before marks stop with
  | nil =>
    obtain ⟨mark, rfl⟩ := List.length_eq_one_iff.1 h
    cases stop with
    | zero => simp [keepWhere, lastOr]
    | succ stop => simp [keepWhere]
  | cons c text ih =>
    cases marks with
    | nil => simp at h
    | cons mark marks =>
      cases stop with
      | zero => simp [keepWhere, lastOr]
      | succ stop =>
        have hlast := lastOr_append before [c] (text.take stop)
        rw [keepWhere, List.getElem?_cons_succ, ih (by simpa using h)]
        simp only [List.getElem?_cons_succ, List.take_succ_cons, List.drop_succ_cons]
        rw [← List.singleton_append, hlast]
        simp [lastOr]

theorem getElem?_moveOver {accepts : Char → Bool} {text : List Char} {marks : List Bool}
    (stop : Nat) :
    (moveOver accepts text marks)[stop]? = some true ↔
      ∃ start c, stop = start + 1 ∧ marks[start]? = some true ∧ text[start]? = some c ∧
        accepts c = true := by
  cases stop with
  | zero => simp [moveOver]
  | succ stop =>
    simp only [moveOver, List.getElem?_cons_succ, List.getElem?_zipWith_eq_some,
      Nat.add_right_cancel_iff]
    constructor
    · rintro ⟨mark, c, hmark, hc, hboth⟩
      obtain ⟨rfl, haccepts⟩ := Bool.and_eq_true_iff.1 hboth
      exact ⟨stop, c, rfl, hmark, hc, haccepts⟩
    · rintro ⟨_, c, rfl, hmark, hc, haccepts⟩
      exact ⟨true, c, hmark, hc, by simpa using haccepts⟩

theorem getElem?_zipWith_or {left right : List Bool} (h : left.length = right.length)
    (stop : Nat) :
    (List.zipWith (· || ·) left right)[stop]? = some true ↔
      left[stop]? = some true ∨ right[stop]? = some true := by
  rw [List.getElem?_zipWith_eq_some]
  constructor
  · rintro ⟨a, b, ha, hb, hab⟩
    rcases Bool.or_eq_true_iff.1 hab with rfl | rfl
    · exact .inl ha
    · exact .inr hb
  · rintro (ha | hb)
    · obtain ⟨hbound, -⟩ := List.getElem?_eq_some_iff.1 ha
      exact ⟨true, _, ha, List.getElem?_eq_getElem (h ▸ hbound), Bool.true_or _⟩
    · obtain ⟨hbound, -⟩ := List.getElem?_eq_some_iff.1 hb
      exact ⟨_, true, List.getElem?_eq_getElem (h ▸ hbound), hb, Bool.or_true _⟩

/-! ### From place to place -/

def Spans (regex : Regex) (text : List Char) (start stop : Nat) : Prop :=
  ∃ found ∈ regex.run (lastOr none (text.take start)) (text.drop start), start + found.size = stop

section Spans

variable {first second left right body : Regex} {accepts : Char → Bool}
  {holds : Option Char → List Char → Bool} {text : List Char} {start stop : Nat}

/-- What follows a match is what follows its end in the whole text. -/
theorem run_after_of_mem_run {regex : Regex} {found : Match}
    (h : found ∈ regex.run (lastOr none (text.take start)) (text.drop start)) :
    found.last = lastOr none (text.take (start + found.size)) ∧
      found.rest = text.drop (start + found.size) := by
  obtain ⟨taken, happend, hsize, hlast⟩ := exists_append_of_mem_run h
  have htaken : (text.drop start).take found.size = taken := by
    rw [← happend, ← hsize, List.take_left]
  constructor
  · rw [hlast, ← lastOr_append, ← htaken, ← List.take_add]
  · rw [← List.drop_drop, ← happend, ← hsize, List.drop_left]

theorem spans_empty_iff : Spans .empty text start stop ↔ start = stop := by
  simp only [Spans, mem_run_empty_iff, exists_eq_left, Nat.add_zero]

theorem spans_one_iff :
    Spans (.one accepts) text start stop ↔
      ∃ c, stop = start + 1 ∧ text[start]? = some c ∧ accepts c = true := by
  have hhead : text[start]? = (text.drop start).head? := List.head?_drop.symm
  simp only [Spans, mem_run_one_iff]
  constructor
  · rintro ⟨_, ⟨c, rest, hdrop, hc, rfl⟩, rfl⟩
    exact ⟨c, rfl, by rw [hhead, hdrop, List.head?_cons], hc⟩
  · rintro ⟨c, rfl, hget, hc⟩
    obtain ⟨rest, hdrop⟩ := List.head?_eq_some_iff.1 (hhead ▸ hget)
    exact ⟨_, ⟨c, rest, hdrop, hc, rfl⟩, rfl⟩

theorem spans_many_iff (hstart : start ≤ text.length) :
    Spans (.many accepts) text start stop ↔
      start ≤ stop ∧ stop ≤ text.length ∧
        ((text.drop start).take (stop - start)).all accepts = true := by
  simp only [Spans, mem_run_many_iff]
  constructor
  · rintro ⟨_, ⟨taken, rest, happend, hall, rfl⟩, rfl⟩
    have hlength := congrArg List.length happend
    rw [List.length_append, List.length_drop] at hlength
    refine ⟨Nat.le_add_right _ _, by simp only; omega, ?_⟩
    rwa [Nat.add_sub_cancel_left, ← happend, List.take_left]
  · rintro ⟨hle, hstop, hall⟩
    refine ⟨_, ⟨_, _, List.take_append_drop (stop - start) _, hall, rfl⟩, ?_⟩
    simp only [List.length_take, List.length_drop]
    omega

theorem spans_seq_iff :
    Spans (.seq first second) text start stop ↔
      ∃ middle, Spans first text start middle ∧ Spans second text middle stop := by
  simp only [Spans, mem_run_seq_iff]
  constructor
  · rintro ⟨_, ⟨head, hhead, tail, htail, rfl⟩, rfl⟩
    obtain ⟨hlast, hrest⟩ := run_after_of_mem_run hhead
    rw [hlast, hrest] at htail
    exact ⟨_, ⟨head, hhead, rfl⟩, tail, htail, Nat.add_assoc _ _ _⟩
  · rintro ⟨_, ⟨head, hhead, rfl⟩, tail, htail, rfl⟩
    obtain ⟨hlast, hrest⟩ := run_after_of_mem_run hhead
    rw [← hlast, ← hrest] at htail
    exact ⟨_, ⟨head, hhead, tail, htail, rfl⟩, (Nat.add_assoc _ _ _).symm⟩

theorem spans_alt_iff :
    Spans (.alt left right) text start stop ↔
      Spans left text start stop ∨ Spans right text start stop := by
  simp only [Spans, mem_run_alt_iff, or_and_right, exists_or]

theorem spans_place_iff :
    Spans (.place holds) text start stop ↔
      start = stop ∧ holds (lastOr none (text.take start)) (text.drop start) = true := by
  simp only [Spans, mem_run_place_iff]
  constructor
  · rintro ⟨_, ⟨hholds, rfl⟩, rfl⟩
    exact ⟨rfl, hholds⟩
  · rintro ⟨rfl, hholds⟩
    exact ⟨_, ⟨hholds, rfl⟩, rfl⟩

theorem spans_group_iff : Spans (.group body) text start stop ↔ Spans body text start stop := by
  simp only [Spans, mem_run_group_iff]
  constructor
  · rintro ⟨_, ⟨inner, hinner, rfl⟩, hstop⟩
    exact ⟨inner, hinner, hstop⟩
  · rintro ⟨inner, hinner, hstop⟩
    exact ⟨_, ⟨inner, hinner, rfl⟩, hstop⟩

end Spans

/-- The places marked at the end are those that matches from places marked before end at. -/
theorem getElem?_ends {regex : Regex} {text : List Char} {marks : List Bool}
    (h : marks.length = text.length + 1) (stop : Nat) :
    (ends text regex marks)[stop]? = some true ↔
      ∃ start, marks[start]? = some true ∧ Spans regex text start stop := by
  induction regex generalizing marks stop with
  | empty => simp [ends, spans_empty_iff]
  | one accepts =>
    simp only [ends, getElem?_moveOver, spans_one_iff, exists_and_left, and_left_comm]
  | many accepts =>
    have hbound {start : Nat} (hstart : marks[start]? = some true) : start ≤ text.length := by
      have hlt := (List.getElem?_eq_some_iff.1 hstart).1
      omega
    rw [ends, getElem?_spreadOver h]
    constructor
    · rintro ⟨hstop, ⟨hcarried, -⟩ | ⟨start, hle, hstart, hall⟩⟩
      · cases hcarried
      · exact ⟨start, hstart, (spans_many_iff (hbound hstart)).2 ⟨hle, hstop, hall⟩⟩
    · rintro ⟨start, hstart, hspans⟩
      obtain ⟨hle, hstop, hall⟩ := (spans_many_iff (hbound hstart)).1 hspans
      exact ⟨hstop, .inr ⟨start, hle, hstart, hall⟩⟩
  | seq first second ihFirst ihSecond =>
    simp only [ends, ihSecond (length_ends h), ihFirst h, spans_seq_iff]
    constructor
    · rintro ⟨middle, ⟨start, hstart, hfirst⟩, hsecond⟩
      exact ⟨start, hstart, middle, hfirst, hsecond⟩
    · rintro ⟨start, hstart, middle, hfirst, hsecond⟩
      exact ⟨middle, ⟨start, hstart, hfirst⟩, hsecond⟩
  | alt left right ihLeft ihRight =>
    rw [ends, getElem?_zipWith_or ((length_ends h).trans (length_ends h).symm), ihLeft h,
      ihRight h, ← exists_or]
    simp only [spans_alt_iff, and_or_left]
  | place holds =>
    rw [ends, getElem?_keepWhere h]
    simp only [spans_place_iff]
    constructor
    · rintro ⟨hmark, hholds⟩
      exact ⟨stop, hmark, rfl, hholds⟩
    · rintro ⟨_, hmark, rfl, hholds⟩
      exact ⟨hmark, hholds⟩
  | group body ih => simp only [ends, ih h, spans_group_iff]

/-- An expression occurs in a text if it matches at one of its places. -/
theorem occursIn_iff {regex : Regex} {text : List Char} :
    regex.occursIn text = true ↔
      ∃ front back, front ++ back = text ∧ regex.run front.getLast? back ≠ [] := by
  have hlength : (List.replicate (text.length + 1) true).length = text.length + 1 := by simp
  rw [occursIn, List.any_eq_true]
  constructor
  · rintro ⟨mark, hmem, hmark⟩
    obtain ⟨stop, hstop⟩ := List.getElem?_of_mem hmem
    obtain ⟨start, -, found, hfound, -⟩ :=
      (getElem?_ends hlength stop).1 (by rw [hstop]; exact congrArg some hmark)
    refine ⟨text.take start, text.drop start, List.take_append_drop _ _, ?_⟩
    exact List.ne_nil_of_mem (by simpa [lastOr] using hfound)
  · rintro ⟨front, back, rfl, hrun⟩
    obtain ⟨found, hfound⟩ := List.exists_mem_of_ne_nil _ hrun
    refine ⟨true, List.mem_of_getElem? ((getElem?_ends hlength (front.length + found.size)).2
      ⟨front.length, ?_, found, ?_, rfl⟩), rfl⟩
    · rw [List.getElem?_replicate, if_pos (by simp only [List.length_append]; omega)]
    · simpa [lastOr] using hfound

end EnvFill.Regex
