import EnvFill.Proofs.PastedEntries

/-!
# Lines that are written anew

A key and a written value make a line that is read as that key and value, whatever the value holds. What is
read from any line is such a key and some value, so that the line may be written anew without any change in
what is read. The key may be any that a line can have; it need not be one that is found or pasted.
-/

namespace EnvFill.EnvFile

open Text

namespace Line

variable {key : List Char}

def written (key value : List Char) : List Char := key ++ '=' :: Value.format value

/-- The line with its setting written anew. Lines that set nothing stay. -/
def rewritten (line : List Char) : List Char :=
  match split? line with
  | some (key, raw) => written key (Value.unquote raw)
  | none => line

theorem IsKey.split?_written (hkey : IsKey key) (value : List Char) :
    split? (written key value) = some (key, Value.format value) := by
  rw [written, hkey.split?_eq, Value.strip_format]

theorem lf_not_mem_rewritten {line : List Char} (hline : '\n' ∉ line) : '\n' ∉ rewritten line := by
  unfold rewritten
  split
  · rename_i key raw hsplit
    rw [written, List.mem_append, List.mem_cons, not_or, not_or]
    exact ⟨fun hmem => hline (mem_of_split? hsplit (.inl hmem)), by decide, Value.lf_not_mem_format _⟩
  · exact hline

end Line

theorem Value.format_injective : Function.Injective format :=
  Function.LeftInverse.injective unquote_format

/-- A line that is written anew makes the same setting. -/
theorem textSetting?_rewritten (line : List Char) :
    textSetting? (Line.rewritten line) = textSetting? line := by
  unfold Line.rewritten
  split
  · rename_i key raw hsplit
    have hkey : Line.IsKey key := Line.isKey_of_split? hsplit
    rw [textSetting?, textSetting?, hkey.split?_written, hsplit, Option.map_some, Option.map_some]
    dsimp only
    rw [Value.unquote_format]
  · rfl

def rewrittenText (text : String) : String :=
  String.ofList (['\n'].intercalate ((lines text.toList).map Line.rewritten))

theorem lines_rewrittenText (text : String) :
    lines (rewrittenText text).toList = (lines text.toList).map Line.rewritten := by
  have hne : (lines text.toList).map Line.rewritten ≠ [] := by
    rw [Ne, List.map_eq_nil_iff]
    exact splitAtEach_ne_nil _ _
  have hfree : ∀ line ∈ (lines text.toList).map Line.rewritten, '\n' ∉ line := by
    intro line hline
    obtain ⟨old, hold, rfl⟩ := List.mem_map.mp hline
    apply Line.lf_not_mem_rewritten
    intro hmem
    exact absurd (forall_of_mem_splitAtEach hold '\n' hmem).2 (by decide)
  rw [rewrittenText, String.toList_ofList, lines, splitAtEach_eq_splitOnP, ← List.splitOn_eq_splitOnP]
  exact List.splitOn_intercalate '\n' hfree hne

theorem ofText_rewrittenText (text : String) : Entries.ofText (rewrittenText text) = Entries.ofText text := by
  rw [ofText_eq, ofText_eq, lines_rewrittenText, List.filterMap_map]
  congr 2
  funext line
  exact textSetting?_rewritten line

/-- Blanks and quotes go where they are not needed, and what is read stays. -/
example : rewrittenText " A = 'x y' \n# B=1\nC=\"2\"" = "A=\"x y\"\n# B=1\nC=2" := by decide

/-- **Written lines are read back**, with any key that a line can have and any value. So no two values are
written alike, and a setting that was read from any line, or all settings of a text, may be written anew. -/
theorem written_line_is_read_back {key : List Char} (hkey : Line.IsKey key) (value : List Char) :
    ('\n' ∉ Value.format value ∧
        Line.split? (key ++ '=' :: Value.format value) = some (key, Value.format value) ∧
        Value.unquote (Value.format value) = value) ∧
      Function.Injective Value.format ∧
      (∀ line name raw : List Char, Line.split? line = some (name, raw) →
        Line.split? (name ++ '=' :: Value.format (Value.unquote raw)) =
            some (name, Value.format (Value.unquote raw)) ∧
          Value.unquote (Value.format (Value.unquote raw)) = Value.unquote raw) ∧
      ∀ text : String, Entries.ofText (rewrittenText text) = Entries.ofText text := by
  refine ⟨⟨?_, ?_, ?_⟩, Value.format_injective, ?_, ofText_rewrittenText⟩
  · exact Value.lf_not_mem_format value
  · exact hkey.split?_written value
  · exact Value.unquote_format value
  · intro line name raw hsplit
    have hname : Line.IsKey name := Line.isKey_of_split? hsplit
    exact ⟨hname.split?_written _, Value.unquote_format _⟩

/-- A key with a blank in it, and a value with blanks at its ends, an escape of its own and a line end. -/
theorem written_line_is_read_back_of_escapes :
    Line.IsKey "MY KEY".toList ∧
      Value.format " \\n\n\"# ".toList = "\" \\\\n\\n\\\"# \"".toList ∧
      Line.split? ("MY KEY".toList ++ '=' :: Value.format " \\n\n\"# ".toList) =
        some ("MY KEY".toList, Value.format " \\n\n\"# ".toList) ∧
      Value.unquote (Value.format " \\n\n\"# ".toList) = " \\n\n\"# ".toList := by
  have hkey : Line.IsKey "MY KEY".toList := by decide
  obtain ⟨⟨-, hsplit, hvalue⟩, -⟩ := written_line_is_read_back hkey " \\n\n\"# ".toList
  exact ⟨hkey, by decide, hsplit, hvalue⟩

end EnvFill.EnvFile
