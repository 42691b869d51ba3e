import EnvFill.Text.Blank

/-!
Lines. A text has one line more than it has line ends. Files may end their lines with a line feed,
a carriage return or both in this order; pasted text may have a carriage return before a line feed.
-/

namespace EnvFill.Text

def consFirst {α : Type} (a : α) : List (List α) → List (List α)
  | [] => [[a]]
  | line :: lines => (a :: line) :: lines

/-- The pieces of the list between the members that satisfy `isEnd`. -/
def splitAtEach {α : Type} (isEnd : α → Bool) : List α → List (List α)
  | [] => [[]]
  | a :: rest =>
    if isEnd a then [] :: splitAtEach isEnd rest else consFirst a (splitAtEach isEnd rest)

/-- The part before the first member that satisfies `isMark`, and the part after it. -/
def cutAtFirst {α : Type} (isMark : α → Bool) : List α → Option (List α × List α)
  | [] => none
  | a :: rest =>
    if isMark a then some ([], rest)
    else (cutAtFirst isMark rest).map fun (before, after) => (a :: before, after)

theorem length_of_cutAtFirst {α : Type} {isMark : α → Bool} {text before after : List α}
    (h : cutAtFirst isMark text = some (before, after)) : after.length < text.length := by
  induction text generalizing before with
  | nil => simp [cutAtFirst] at h
  | cons a rest ih =>
    unfold cutAtFirst at h
    split at h
    · simp only [Option.some.injEq, Prod.mk.injEq] at h
      simp [h.2]
    · obtain ⟨⟨front, back⟩, hcut, heq⟩ := Option.map_eq_some_iff.1 h
      simp only [Prod.mk.injEq] at heq
      have := ih (heq.2 ▸ hcut)
      simp only [List.length_cons]
      omega

/-- The lines of a text in which only the line feed ends a line. -/
def lines (text : List Char) : List (List Char) := splitAtEach (· == '\n') text

/-- The lines of a text in which a line feed, or a carriage return and a line feed, end a line. -/
def pastedLines : List Char → List (List Char)
  | [] => [[]]
  | '\r' :: '\n' :: rest => [] :: pastedLines rest
  | '\n' :: rest => [] :: pastedLines rest
  | c :: rest => consFirst c (pastedLines rest)

namespace Byte

def lf : UInt8 := 0x0A

def cr : UInt8 := 0x0D

end Byte

/-- Writes every line end, of whichever kind, as one line feed. `afterCr` says that the byte before
was a carriage return, which has been written already. -/
def unifyLineEndsFrom (afterCr : Bool) : List UInt8 → List UInt8
  | [] => []
  | byte :: rest =>
    if byte = Byte.cr then Byte.lf :: unifyLineEndsFrom true rest
    else if byte = Byte.lf && afterCr then unifyLineEndsFrom false rest
    else byte :: unifyLineEndsFrom false rest

def unifyLineEnds (bytes : List UInt8) : List UInt8 := unifyLineEndsFrom false bytes

def byteLines (bytes : List UInt8) : List (List UInt8) :=
  splitAtEach (· == Byte.lf) (unifyLineEnds bytes)

/-- The lines joined by line feeds, with all line feeds at the end replaced by one. -/
def joinByteLines (lines : List (List UInt8)) : List UInt8 :=
  dropEndWhile (· == Byte.lf) ([Byte.lf].intercalate lines) ++ [Byte.lf]

end EnvFill.Text
