import EnvFill.Proofs.LineEnds
import EnvFill.Proofs.TomlReaders

/-!
# What the faults of TOML documents show

A document that is not merely malformed shows why in its text. A number with too many digits stands there
as a run of them, and values that lie too deep have as many opening brackets and braces before them. The
readers are followed with the text that is left to them: a fault that shows in an end of a text shows in
the text.
-/

namespace EnvFill.Toml

open Text

variable {α β : Type} {nesting extra : Nat} {text rest : List Char} {restOf : α → List Char}
  {other : β → List Char} {fault : Fault} {result : Except Fault α}

/-- Somewhere in the text digits follow one another, but for underscores, more than are read as a whole
number. -/
def HasLongNumber (text : List Char) : Prop :=
  ∃ run, run <:+: text ∧ (∀ c ∈ run, isDigit c = true ∨ c = '_') ∧ maxDigits < run.countP isDigit

def depthBound (text : List Char) : Nat := 2 * text.count '[' + 3 * text.count '\x7b'

/-- What the text of values at the given depth shows where it is read with a fault. -/
def Fault.ShowsIn (nesting : Nat) (text : List Char) : Fault → Prop
  | .malformed => True
  | .hugeNumber => HasLongNumber text
  | .tooDeep => maxNesting < nesting + depthBound text

theorem HasLongNumber.mono (hrest : HasLongNumber rest) (hpart : rest <:+: text) : HasLongNumber text := by
  obtain ⟨run, hrun, hchars, hcount⟩ := hrest
  exact ⟨run, hrun.trans hpart, hchars, hcount⟩

theorem depthBound_mono (hrest : rest.Sublist text) : depthBound rest ≤ depthBound text :=
  Nat.add_le_add (Nat.mul_le_mul_left 2 (hrest.count_le '['))
    (Nat.mul_le_mul_left 3 (hrest.count_le '\x7b'))

theorem Fault.ShowsIn.deeper (hshows : fault.ShowsIn (nesting + extra) rest) (hrest : rest <:+ text)
    (hextra : extra + depthBound rest ≤ depthBound text) : fault.ShowsIn nesting text := by
  cases fault with
  | malformed => trivial
  | hugeNumber => exact HasLongNumber.mono hshows hrest.isInfix
  | tooDeep =>
    have hdeep : maxNesting < nesting + extra + depthBound rest := hshows
    change maxNesting < nesting + depthBound text
    omega

/-- A reader leaves an end of the text, or its fault shows in the text. -/
def Reads (nesting : Nat) (text : List Char) (restOf : α → List Char) (result : Except Fault α) : Prop :=
  (∀ a, result = .ok a → restOf a <:+ text) ∧ ∀ fault, result = .error fault → fault.ShowsIn nesting text

namespace Reads

theorem of_ok {a : α} (ha : restOf a <:+ text) : Reads nesting text restOf (.ok a) := by
  refine ⟨?_, fun _ heq => by cases heq⟩
  rintro _ ⟨⟩
  exact ha

theorem of_error (hfault : fault.ShowsIn nesting text) : Reads nesting text restOf (.error fault) := by
  refine ⟨fun _ heq => (by cases heq), ?_⟩
  rintro _ ⟨⟩
  exact hfault

theorem malformed : Reads nesting text restOf (.error .malformed) := of_error trivial

theorem of_required {part : Option α} (hpart : LeavesEnd text restOf part) :
    Reads nesting text restOf (required part) := by
  cases part with
  | none => exact malformed
  | some a => exact of_ok (hpart a rfl)

theorem bind {next : α → Except Fault β} (hresult : Reads nesting text restOf result)
    (hnext : ∀ a, restOf a <:+ text → Reads nesting text other (next a)) :
    Reads nesting text other (result >>= next) := by
  cases result with
  | ok a => exact hnext a (hresult.1 a rfl)
  | error fault => exact of_error (hresult.2 fault rfl)

/-- Values within others are read from an end of the text that lacks their opening. -/
theorem deeper (extra : Nat) (hresult : Reads (nesting + extra) rest restOf result) (hrest : rest <:+ text)
    (hextra : extra + depthBound rest ≤ depthBound text) : Reads nesting text restOf result :=
  ⟨fun a ha => (hresult.1 a ha).trans hrest, fun fault hfault => (hresult.2 fault hfault).deeper hrest hextra⟩

theorem mono (hresult : Reads nesting rest restOf result) (hrest : rest <:+ text) :
    Reads nesting text restOf result :=
  deeper 0 hresult hrest ((Nat.zero_add _).trans_le (depthBound_mono hrest.sublist))

end Reads

theorem exists_skipDigits (text : List Char) : ∃ run, text = run ++ skipDigits isDigit text ∧
    ∀ c ∈ run, isDigit c = true ∨ c = '_' := by
  fun_induction skipDigits isDigit text with
  | case1 c rest hc ih =>
    obtain ⟨run, hrun, hchars⟩ := ih
    exact ⟨'_' :: c :: run, congrArg ('_' :: c :: ·) hrun,
      List.forall_mem_cons.mpr ⟨.inr rfl, List.forall_mem_cons.mpr ⟨.inl hc, hchars⟩⟩⟩
  | case2 => exact ⟨[], rfl, List.forall_mem_nil _⟩
  | case3 c rest _ hc ih =>
    obtain ⟨run, hrun, hchars⟩ := ih
    exact ⟨c :: run, congrArg (c :: ·) hrun, List.forall_mem_cons.mpr ⟨.inl hc, hchars⟩⟩
  | case4 => exact ⟨[], rfl, List.forall_mem_nil _⟩
  | case5 => exact ⟨[], rfl, List.forall_mem_nil _⟩

/-- The whole part of a number is a run of digits. -/
theorem exists_wholePart? (hwhole : wholePart? text = some rest) :
    ∃ run, text = run ++ rest ∧ ∀ c ∈ run, isDigit c = true ∨ c = '_' := by
  unfold wholePart? at hwhole
  split at hwhole
  · obtain rfl := Option.some.inj hwhole
    exact ⟨['0'], rfl, List.forall_mem_singleton.mpr (.inl (by decide))⟩
  · rename_i c rest _
    split at hwhole
    · rename_i hc
      obtain rfl := Option.some.inj hwhole
      obtain ⟨run, hrun, hchars⟩ := exists_skipDigits rest
      exact ⟨c :: run, congrArg (c :: ·) hrun, List.forall_mem_cons.mpr ⟨.inl hc, hchars⟩⟩
    · cases hwhole
  · cases hwhole

theorem reads_decimal (text : List Char) : Reads nesting text id (decimal text) := by
  have hsign := skipSign_suffix text
  cases hwhole : wholePart? (skipSign text) with
  | none =>
    rw [decimal, hwhole]
    exact .malformed
  | some rest =>
    obtain ⟨run, hrun, hchars⟩ := exists_wholePart? hwhole
    have htake : (skipSign text).take ((skipSign text).length - rest.length) = run := by
      rw [hrun, List.length_append, Nat.add_sub_cancel, List.take_left]
    have hdecimal : decimal text =
        if (skipExponent (skipFraction rest)).length = rest.length && maxDigits < run.countP isDigit then
          .error .hugeNumber
        else .ok (skipExponent (skipFraction rest)) := by
      rw [decimal, hwhole, ← htake]
      rfl
    rw [hdecimal]
    split
    · rename_i hlong
      rw [Bool.and_eq_true, decide_eq_true_iff] at hlong
      refine .of_error ⟨run, ?_, hchars, of_decide_eq_true hlong.2⟩
      exact (hrun ▸ List.prefix_append run rest).isInfix.trans hsign.isInfix
    · exact .of_ok ((skipExponent_suffix _).trans ((skipFraction_suffix rest).trans
        ((hrun ▸ List.suffix_append run rest).trans hsign)))

theorem reads_scalar (text : List Char) : Reads nesting text id (scalar text) := by
  unfold scalar
  split
  · rename_i real rest hdate
    split
    · exact .of_ok ((skipTimeOfDate_suffix rest).trans (leavesEnd_date? text _ hdate))
    · exact .malformed
  · split
    · rename_i rest hword
      exact .of_ok (leavesEnd_word? text _ hword)
    · unfold number
      split
      · rename_i rest hbased
        exact .of_ok (leavesEnd_based? text _ hbased)
      · exact reads_decimal text

theorem depthBound_open (text : List Char) : depthBound ('[' :: text) = 2 + depthBound text := by
  rw [depthBound, List.count_cons_self, List.count_cons_of_ne (by decide), depthBound]
  omega

theorem depthBound_brace (text : List Char) : depthBound ('\x7b' :: text) = 3 + depthBound text := by
  rw [depthBound, List.count_cons_self, List.count_cons_of_ne (by decide), depthBound]
  omega

section Step

variable {steps : Nat}
  (hvalue : ∀ nesting text, Reads nesting text Prod.snd (value nesting steps text))
  (hitems : ∀ nesting text, Reads nesting text Prod.snd (items nesting steps text))
  (hpairs : ∀ nesting closed table text, Reads nesting text Prod.snd (pairs nesting steps closed table text))

include hitems hpairs in
theorem reads_value_succ (nesting : Nat) (text : List Char) :
    Reads nesting text Prod.snd (value nesting (steps + 1) text) := by
  unfold value
  split
  · rename_i hdeep
    exact .of_error (hdeep.trans_le (Nat.le_add_right nesting _))
  split
  · rename_i rest
    -- What is in the brackets lies two deeper, and the bracket that opens it is not counted again.
    refine .deeper 2 ?_ (List.suffix_cons '[' rest) (depthBound_open rest).ge
    refine (Reads.of_required (leavesEnd_skipFiller false rest)).bind fun inner hinner => ?_
    refine ((hitems (nesting + 2) inner).mono hinner).bind ?_
    rintro ⟨found, after⟩ hafter
    exact .of_ok hafter
  · rename_i rest
    have hblanks := skipLineBlanks_suffix rest
    refine .deeper 3 ?_ (List.suffix_cons '\x7b' rest) (depthBound_brace rest).ge
    split
    · rename_i after hafter
      rw [hafter] at hblanks
      exact .of_ok (cons_suffix hblanks)
    · refine ((hpairs (nesting + 3) [] [] _).mono hblanks).bind ?_
      rintro ⟨table, after⟩ hafter
      exact .of_ok hafter
  · split
    · refine (Reads.of_required (leavesEnd_readString? text)).bind ?_
      rintro ⟨string, rest⟩ hrest
      exact .of_ok hrest
    · refine (reads_scalar text).bind fun rest hrest => ?_
      exact .of_ok hrest

include hvalue hitems in
theorem reads_items_succ (nesting : Nat) (text : List Char) :
    Reads nesting text Prod.snd (items nesting (steps + 1) text) := by
  unfold items
  split
  · exact .of_ok (List.suffix_cons _ _)
  refine (hvalue nesting text).bind ?_
  rintro ⟨item, rest⟩ hrest
  refine (Reads.of_required ((leavesEnd_skipFiller false rest).mono hrest)).bind fun after hafter => ?_
  split
  · exact .of_ok (cons_suffix hafter)
  · rename_i more
    refine (Reads.of_required ((leavesEnd_skipFiller false more).mono (cons_suffix hafter))).bind ?_
    refine fun inner hinner => ((hitems nesting inner).mono hinner).bind ?_
    rintro ⟨others, last⟩ hlast
    exact .of_ok hlast
  · exact .malformed

include hvalue hpairs in
theorem reads_pairs_succ (nesting : Nat) (closed : List Key) (table : Table) (text : List Char) :
    Reads nesting text Prod.snd (pairs nesting (steps + 1) closed table text) := by
  unfold pairs
  refine (Reads.of_required (leavesEnd_key? text)).bind ?_
  rintro ⟨key, rest⟩ hrest
  refine (Reads.of_required ((leavesEnd_after? '=' rest).mono hrest)).bind fun after hafter => ?_
  have hblanks := (skipLineBlanks_suffix after).trans hafter
  refine ((hvalue nesting (skipLineBlanks after)).mono hblanks).bind ?_
  rintro ⟨found, behind⟩ hbehind
  refine (Reads.of_required (.nil _ _)).bind fun added _ => ?_
  have hend := (skipLineBlanks_suffix behind).trans hbehind
  split
  · rename_i last hlast
    rw [hlast] at hend
    exact .of_ok (cons_suffix hend)
  · rename_i more hmore
    rw [hmore] at hend
    exact (hpairs nesting _ added _).mono ((skipLineBlanks_suffix more).trans (cons_suffix hend))
  · exact .malformed

end Step

/-- Values, items of arrays and pairs of tables are read within one another. -/
theorem reads_values (steps : Nat) :
    (∀ nesting text, Reads nesting text Prod.snd (value nesting steps text)) ∧
      (∀ nesting text, Reads nesting text Prod.snd (items nesting steps text)) ∧
        ∀ nesting closed table text,
          Reads nesting text Prod.snd (pairs nesting steps closed table text) := by
  induction steps with
  | zero =>
    refine ⟨fun nesting text => ?_, fun nesting text => ?_, fun nesting closed table text => ?_⟩
    · unfold value
      exact .malformed
    · unfold items
      exact .malformed
    · unfold pairs
      exact .malformed
  | succ steps ih =>
    obtain ⟨hvalue, hitems, hpairs⟩ := ih
    exact ⟨reads_value_succ hitems hpairs, reads_items_succ hvalue hitems, reads_pairs_succ hvalue hpairs⟩

theorem reads_statement (doc : Document) (text : List Char) :
    Reads 0 text Prod.snd (doc.statement text) := by
  unfold Document.statement
  split
  · exact .of_ok List.suffix_rfl
  · exact .of_ok List.suffix_rfl
  · exact .of_ok List.suffix_rfl
  · rename_i rest
    have hblanks := (skipLineBlanks_suffix rest).trans (cons_suffix (List.suffix_cons '[' ('[' :: rest)))
    refine .of_required (((leavesEnd_key? _).mono hblanks).bind ?_)
    rintro ⟨key, after⟩ hafter
    refine (LeavesEnd.nil _ _).bind fun opened _ => ?_
    have hclose : LeavesEnd ('[' :: '[' :: rest) id ((after? ']' after).bind (after? ']')) :=
      ((leavesEnd_after? ']' after).mono hafter).bind fun inner hinner =>
        (leavesEnd_after? ']' inner).mono hinner
    exact hclose.bind fun last hlast => .of_some hlast
  · rename_i rest _
    have hblanks := (skipLineBlanks_suffix rest).trans (List.suffix_cons '[' rest)
    refine .of_required (((leavesEnd_key? _).mono hblanks).bind ?_)
    rintro ⟨key, after⟩ hafter
    refine (LeavesEnd.nil _ _).bind fun opened _ => ?_
    exact ((leavesEnd_after? ']' after).mono hafter).bind fun last hlast => .of_some hlast
  · refine (Reads.of_required (leavesEnd_key? text)).bind ?_
    rintro ⟨key, rest⟩ hrest
    refine (Reads.of_required ((leavesEnd_after? '=' rest).mono hrest)).bind fun after hafter => ?_
    have hblanks := (skipLineBlanks_suffix after).trans hafter
    refine (((reads_values _).1 0 (skipLineBlanks after)).mono hblanks).bind ?_
    rintro ⟨found, last⟩ hlast
    refine (Reads.of_required (.nil _ _)).bind fun added _ => ?_
    exact .of_ok hlast

theorem reads_lines (count : Nat) (doc : Document) (text : List Char) :
    Reads 0 text (fun _ => []) (Document.lines count doc text) := by
  induction count generalizing doc text with
  | zero => exact .malformed
  | succ count ih =>
    unfold Document.lines
    refine ((reads_statement doc _).mono (skipLineBlanks_suffix text)).bind ?_
    rintro ⟨next, rest⟩ hrest
    refine (Reads.of_required ((leavesEnd_lineEnd? rest).mono hrest)).bind fun after hafter => ?_
    split
    · exact .of_ok List.nil_suffix
    · exact (ih _ _).mono (cons_suffix hafter)
    · exact .malformed

theorem sameLines_withoutPairs (text : List Char) : SameLines (withoutPairs text) text := by
  fun_induction withoutPairs text with
  | case1 rest ih => exact .crlf ih
  | case2 c rest _ ih =>
    by_cases hc : c = '\n'
    · subst hc
      exact .lf ih
    · exact .cons hc ih
  | case3 => exact .nil

theorem depthBound_withoutPairs (text : List Char) :
    depthBound (withoutPairs text) = depthBound text := by
  fun_induction withoutPairs text with
  | case1 rest ih => simpa [depthBound] using ih
  | case2 c rest _ ih =>
    simp only [depthBound, List.count_cons] at ih ⊢
    omega
  | case3 => rfl

theorem HasLongNumber.of_withoutPairs (hlong : HasLongNumber (withoutPairs text)) :
    HasLongNumber text := by
  obtain ⟨run, ⟨front, back, htext⟩, hchars, hcount⟩ := hlong
  have hsame := sameLines_withoutPairs text
  rw [← htext, List.append_assoc] at hsame
  obtain ⟨front', _, rfl, -, hrest⟩ := hsame.exists_append
  obtain ⟨run', back', rfl, hrun, -⟩ := hrest.exists_append
  have hlf : '\n' ∉ run := by
    intro hmem
    rcases hchars _ hmem with hdigit | hunderscore
    · exact absurd hdigit (by decide)
    · exact absurd hunderscore (by decide)
  obtain rfl := hrun.eq_of_lf_not_mem hlf
  exact ⟨run', ⟨front', back', List.append_assoc _ _ _⟩, hchars, hcount⟩

/-- **Documents that are not merely malformed show it.** A number that is too long is a run of more
digits than are read; values that lie too deep take more than three hundred opening brackets or braces. -/
theorem showsIn_of_parse (hparse : parse text = .error fault) : fault.ShowsIn 0 text := by
  have hshows := (reads_lines _ _ _).2 fault hparse
  cases fault with
  | malformed => trivial
  | hugeNumber => exact HasLongNumber.of_withoutPairs hshows
  | tooDeep =>
    have hdeep : maxNesting < 0 + depthBound (withoutPairs text) := hshows
    rwa [depthBound_withoutPairs] at hdeep

end EnvFill.Toml
