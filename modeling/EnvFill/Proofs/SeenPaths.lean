import EnvFill.Ignore.ScanFilter
import EnvFill.Proofs.Lines
import Mathlib

/-!
# Paths as patterns see them

A path below the root of a scan is matched as the text of its components from there, and a directory's
with one slash at its end. So what is matched for a directory begins what is matched for anything in it.
-/

namespace EnvFill.Ignore

open Storage Text

variable {root path : Pathname} {names dirs below : List String} {text rest : List Char}

/-- The path leads from the root of a scan along the names: it is written from there, or it is that of
the root followed by them. -/
inductive LeadsBelow (root : Pathname) (names : List String) : Pathname → Prop where
  | relative : LeadsBelow root names ⟨.current, names⟩
  | absolute (hroot : root.isAbsolute = true) : LeadsBelow root names ⟨root.anchor, root.parts ++ names⟩

def seenText (names : List String) : List Char :=
  (Pathname.mk .current names).toString.toList.map fun c => if c = '\\' then '/' else c

theorem visiblePath?_of_leadsBelow (hpath : LeadsBelow root names path) :
    ScanFilter.visiblePath? root path = some (String.ofList (seenText names)) := by
  unfold ScanFilter.visiblePath?
  cases hpath with
  | relative => rfl
  | absolute hroot =>
    have hbelow : root.relativeTo? ⟨root.anchor, root.parts ++ names⟩ = some ⟨.current, names⟩ := by
      simp [Pathname.relativeTo?]
    exact (if_pos hroot).trans (by rw [hbelow]; rfl)

theorem ignoresFile_iff {filter : ScanFilter} (hpath : LeadsBelow root names path) :
    filter.ignoresFile root path = true ↔
      ignores filter.patterns (String.ofList (seenText names)) = true := by
  rw [ScanFilter.ignoresFile, visiblePath?_of_leadsBelow hpath, Option.any_some]

def seenDirectory (names : List String) : List Char :=
  dropEndWhile (· == '/') (seenText names) ++ ['/']

theorem ignoresDirectory_iff {filter : ScanFilter} (hpath : LeadsBelow root names path) :
    filter.ignoresDirectory root path = true ↔
      ignores filter.patterns (String.ofList (seenDirectory names)) = true := by
  rw [ScanFilter.ignoresDirectory, visiblePath?_of_leadsBelow hpath, Option.any_some,
    ScanFilter.directoryPath, String.toList_ofList, seenDirectory]

theorem toString_current (hnames : names ≠ []) :
    (Pathname.mk .current names).toString = Pathname.joinParts names := by
  obtain ⟨name, rest, rfl⟩ := List.exists_cons_of_ne_nil hnames
  rfl

theorem toList_joinParts (names : List String) :
    (Pathname.joinParts names).toList = ['/'].intercalate (names.map String.toList) :=
  String.toList_intercalate

theorem seenText_append (hdirs : dirs ≠ []) (hbelow : below ≠ []) :
    seenText (dirs ++ below) = seenText dirs ++ '/' :: seenText below := by
  have hjoin : Pathname.joinParts (dirs ++ below) =
      Pathname.joinParts dirs ++ "/" ++ Pathname.joinParts below :=
    String.intercalate_append_of_ne_nil hdirs hbelow
  unfold seenText
  rw [toString_current (by simp [hdirs]), toString_current hdirs, toString_current hbelow, hjoin]
  simp

theorem seenDirectory_begins (hdirs : dirs ≠ []) (hbelow : below ≠ []) :
    seenDirectory dirs <+: seenText (dirs ++ below) := by
  rw [seenText_append hdirs hbelow, seenDirectory]
  obtain ⟨slashes, htext, hslashes⟩ := exists_append_dropEndWhile (· == '/') (seenText dirs)
  cases slashes with
  | nil =>
    rw [List.append_nil] at htext
    exact ⟨seenText below, by rw [← htext]; simp⟩
  | cons c slashes =>
    obtain rfl : c = '/' := by simpa using hslashes c List.mem_cons_self
    refine ⟨slashes ++ '/' :: seenText below, ?_⟩
    conv_rhs => rw [htext]
    simp

theorem plainPath_suffix (text : List Char) : plainPath text <:+ text := by
  unfold plainPath
  split
  · exact ⟨['/'], rfl⟩
  · exact ⟨['.', '/'], rfl⟩
  · exact List.suffix_refl text

theorem plainPath_eq_self (hroot : text.head? ≠ some '/') (hdot : ¬['.', '/'] <+: text) :
    plainPath text = text := by
  unfold plainPath
  split
  · exact absurd rfl hroot
  · exact absurd ⟨_, rfl⟩ hdot
  · rfl

/-- Taking away what a path begins with leaves it the beginning of a longer one. -/
theorem plainPath_begins (hslash : text.getLast? = some '/') (hbegins : text <+: rest) :
    plainPath text <+: plainPath rest := by
  obtain ⟨more, rfl⟩ := hbegins
  match text with
  | [] => simp at hslash
  | [c] =>
    obtain rfl : c = '/' := by simpa using hslash
    exact ⟨more, rfl⟩
  | c :: d :: text =>
    by_cases hroot : c = '/'
    · subst hroot
      exact ⟨more, rfl⟩
    by_cases hdot : c = '.' ∧ d = '/'
    · obtain ⟨rfl, rfl⟩ := hdot
      exact ⟨more, rfl⟩
    have hself : ∀ back, plainPath (c :: d :: back) = c :: d :: back := by
      intro back
      apply plainPath_eq_self
      · simpa using hroot
      · intro hbegin
        simp only [List.cons_prefix_cons] at hbegin
        exact hdot ⟨hbegin.1.symm, hbegin.2.1.symm⟩
    rw [hself, List.cons_append, List.cons_append, hself]
    exact ⟨more, rfl⟩

end EnvFill.Ignore
