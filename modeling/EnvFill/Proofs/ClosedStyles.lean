import EnvFill.Proofs.EscapedMarkup
import EnvFill.Screen.Cards

/-!
# Styles that are closed

A tag that closes a style which is not open cannot be shown: it is an error of the screen. Names of files
are shown as they are, between tags. A name without tags closes nothing, so that what is shown with it closes
no more than it opens.
-/

namespace EnvFill.Screen

variable {text rest tail : List Char} {c : Char} {pending : Nat} {file : String} {renders : String → Prop}

/-- The tags in a text that comes after `pending` backslashes, without their brackets. -/
def tagsFrom (pending : Nat) : List Char → List (List Char)
  | [] => []
  | c :: rest =>
    if c = '\\' then tagsFrom (pending + 1) rest
    else if c = '[' && opensTag rest && pending % 2 == 0 then
      rest.takeWhile (· != ']') :: tagsFrom 0 rest
    else tagsFrom 0 rest

/-- Whether each tag that closes a style closes one that is open: the one that it names, or the last one if
it names none. Tags that call for an action are not looked at. -/
def closesOpen (opened : List (List Char)) : List (List Char) → Bool
  | [] => true
  | ('/' :: name) :: tags =>
    if name.isEmpty then !opened.isEmpty && closesOpen opened.tail tags
    else opened.contains name && closesOpen (opened.erase name) tags
  | tag :: tags => tag.head? != some '@' && closesOpen (tag :: opened) tags

def closesStyles (markup : String) : Bool := closesOpen [] (tagsFrom 0 markup.toList)

def Content.Renders (renders : String → Prop) : Content → Prop
  | .markup text => renders text
  | .pieces _ => True
  | .table columns rows =>
    (∀ column ∈ columns, renders column.header) ∧ ∀ row ∈ rows, ∀ cell ∈ row, renders cell
  | .panel body title _ => body.Renders renders ∧ ∀ text ∈ title, renders text

def Event.Renders (renders : String → Prop) : Event → Prop
  | .shown content => content.Renders renders
  | .asked prompt _ styled => styled = true → renders prompt
  | .working text => renders text

theorem tagsFrom_slash (pending : Nat) (rest : List Char) :
    tagsFrom pending ('\\' :: rest) = tagsFrom (pending + 1) rest := by
  rw [tagsFrom, if_pos rfl]

theorem tagsFrom_other (pending : Nat) (hc : c ≠ '\\') (htag : ¬(c = '[' ∧ opensTag rest = true)) :
    tagsFrom pending (c :: rest) = tagsFrom 0 rest := by
  have hopen : (c = '[' && opensTag rest && pending % 2 == 0) = false := by
    rw [Bool.and_eq_false_iff]
    exact .inl (by simpa using htag)
  rw [tagsFrom, if_neg hc, hopen, if_neg Bool.false_ne_true]

/-- After an odd number of backslashes a tag is part of the text. -/
theorem tagsFrom_tag (pending : Nat) (htag : opensTag rest = true) :
    tagsFrom pending ('[' :: rest) =
      (if pending % 2 = 0 then [rest.takeWhile (· != ']')] else []) ++ tagsFrom 0 rest := by
  rw [tagsFrom, if_neg (by decide), htag]
  by_cases heven : pending % 2 = 0
  · simp [heven]
  · simp [heven]

/-- A text without brackets and backslashes adds no tags. -/
theorem tagsFrom_append_of_forall (htext : ∀ c ∈ text, c ≠ '\\' ∧ c ≠ '[') (rest : List Char) :
    tagsFrom 0 (text ++ rest) = tagsFrom 0 rest := by
  induction text with
  | nil => rfl
  | cons c text ih =>
    obtain ⟨⟨hc, hbracket⟩, htext⟩ := List.forall_mem_cons.mp htext
    rw [List.cons_append, tagsFrom_other 0 hc fun htag => hbracket htag.1, ih htext]

/-- A text without tags adds none, but the backslashes at its end count for what follows. -/
theorem tagsFrom_append_of_not_hasTag (htail : LeavesTags tail) (htext : ¬HasTag text) (pending : Nat) :
    tagsFrom pending (text ++ tail) = tagsFrom (slashes (List.replicate pending '\\' ++ text)) tail := by
  induction pending, text using escape_induction with
  | nil pending => rw [List.nil_append, List.append_nil, slashes_replicate]
  | slash pending rest ih =>
    rw [hasTag_cons_iff, not_or] at htext
    rw [List.cons_append, tagsFrom_slash, ih htext.2, replicate_append_slash]
  | tag pending rest htag _ => exact absurd (hasTag_cons_iff.mpr (.inl ⟨rfl, htag⟩)) htext
  | other pending c rest hc htag ih =>
    rw [hasTag_cons_iff, not_or] at htext
    have htag' : ¬(c = '[' ∧ opensTag (rest ++ tail) = true) := by rwa [htail]
    rw [List.cons_append, tagsFrom_other pending hc htag', ih htext.2, slashes_append_cons _ hc,
      List.replicate_zero, List.nil_append]

/-- Before text that begins with neither bracket nor backslash, a name without tags adds nothing. -/
theorem tagsFrom_name_append (htail : LeavesTags (c :: tail)) (hc : c ≠ '\\' ∧ c ≠ '[')
    (htext : ¬HasTag text) : tagsFrom 0 (text ++ c :: tail) = tagsFrom 0 tail := by
  rw [tagsFrom_append_of_not_hasTag htail htext, tagsFrom_other _ hc.1 fun htag => hc.2 htag.1]

/-- Before a tag, a name without tags either adds nothing, or it makes the tag a part of the text. -/
theorem tagsFrom_name_tag (htag : opensTag tail = true) (htext : ¬HasTag text) :
    tagsFrom 0 (text ++ '[' :: tail) = tail.takeWhile (· != ']') :: tagsFrom 0 tail ∨
      tagsFrom 0 (text ++ '[' :: tail) = tagsFrom 0 tail := by
  rw [tagsFrom_append_of_not_hasTag (leavesTags_bracket tail) htext, tagsFrom_tag _ htag]
  split
  · exact .inl rfl
  · exact .inr rfl

theorem mem_number {n : Int} (hc : c ∈ (toString n).toList) : c ≠ '\\' ∧ c ≠ '[' := by
  have hdigits : ∀ {m : Nat}, c ∈ m.repr.toList → c ≠ '\\' ∧ c ≠ '[' := by
    intro m hmem
    rw [Nat.toList_repr] at hmem
    have hdigit := Nat.isDigit_of_mem_toDigits (by decide) (by decide) hmem
    constructor <;> (rintro rfl; exact absurd hdigit (by decide))
  rw [Int.toString_eq_repr, Int.repr_eq_if] at hc
  split at hc
  · exact hdigits hc
  · rw [String.toList_append, List.mem_append] at hc
    rcases hc with hminus | hc
    · rw [List.mem_singleton.mp hminus]
      decide
    · exact hdigits hc

theorem closesStyles_warning (hfile : ¬HasTag file.toList) :
    closesStyles s!"[yellow]⚠ [bold]{file}[/bold] is [bold]NOT[/bold] in .gitignore![/yellow]" = true := by
  have hfront (rest : List Char) : tagsFrom 0 ("[yellow]⚠ [bold]".toList ++ rest) =
      "yellow".toList :: "bold".toList :: tagsFrom 0 rest := rfl
  have hclose : "[/bold] is [bold]NOT[/bold] in .gitignore![/yellow]".toList =
      '[' :: "/bold] is [bold]NOT[/bold] in .gitignore![/yellow]".toList := rfl
  have htag : opensTag "/bold] is [bold]NOT[/bold] in .gitignore![/yellow]".toList = true := by decide
  unfold closesStyles
  simp only [String.toList_append, List.append_assoc, toString]
  rw [hfront, hclose]
  rcases tagsFrom_name_tag htag hfile with htags | htags <;> rw [htags] <;> decide

theorem closesStyles_advice (hfile : ¬HasTag file.toList) :
    closesStyles s!"[dim]    Run: echo \"{file}\" >> .gitignore[/dim]" = true := by
  have hfront (rest : List Char) : tagsFrom 0 ("[dim]    Run: echo \"".toList ++ rest) =
      "dim".toList :: tagsFrom 0 rest := rfl
  have hquote : "\" >> .gitignore[/dim]".toList = '"' :: " >> .gitignore[/dim]".toList := rfl
  unfold closesStyles
  simp only [String.toList_append, List.append_assoc, toString]
  rw [hfront, hquote, tagsFrom_name_append (leavesTags_of_head? rfl (by decide)) (by decide) hfile]
  decide

theorem closesStyles_synced (hfile : ¬HasTag file.toList) (count : Int) {noun : String}
    (hnoun : ∀ c ∈ noun.toList, c ≠ '\\' ∧ c ≠ '[') :
    closesStyles s!"[green]✔ Synced {count} new {noun} to {file}[/green]" = true := by
  have hstring (text : String) : toString text = text := rfl
  have hfront (rest : List Char) : tagsFrom 0 ("[green]✔ Synced ".toList ++ rest) =
      "green".toList :: tagsFrom 0 rest := rfl
  have hnew (rest : List Char) : tagsFrom 0 (" new ".toList ++ rest) = tagsFrom 0 rest := rfl
  have hto (rest : List Char) : tagsFrom 0 (" to ".toList ++ rest) = tagsFrom 0 rest := rfl
  have hclose : "[/green]".toList = '[' :: "/green]".toList := rfl
  have htag : opensTag "/green]".toList = true := by decide
  unfold closesStyles
  simp only [String.toList_append, List.append_assoc, hstring]
  rw [hfront, tagsFrom_append_of_forall fun c => mem_number, hnew, tagsFrom_append_of_forall hnoun, hto, hclose]
  rcases tagsFrom_name_tag htag hfile with htags | htags <;> rw [htags] <;> decide

theorem closesStyles_complete (hfile : ¬HasTag file.toList) (saved : Int) {noun : String}
    (hnoun : ∀ c ∈ noun.toList, c ≠ '\\' ∧ c ≠ '[') :
    closesStyles ("\n".intercalate ["[bold green]✔ Complete[/bold green]", "",
      s!"Saved     [bold]{saved}[/bold] [dim]{noun}[/dim]", s!"Target    [bold cyan]{file}[/bold cyan]", "",
      s!"[dim]Tip: make sure {file} is in .gitignore[/dim]"]) = true := by
  have hstring (text : String) : toString text = text := rfl
  have hfront (rest : List Char) : tagsFrom 0 ("[bold green]✔ Complete[/bold green]".toList ++
      ("\n".toList ++ ("".toList ++ ("\n".toList ++ ("Saved     [bold]".toList ++ rest))))) =
        "bold green".toList :: "/bold green".toList :: "bold".toList :: tagsFrom 0 rest := rfl
  have hsaved (rest : List Char) : tagsFrom 0 ("[/bold] [dim]".toList ++ rest) =
      "/bold".toList :: "dim".toList :: tagsFrom 0 rest := rfl
  have htarget (rest : List Char) : tagsFrom 0 ("[/dim]".toList ++ ("\n".toList ++
      ("Target    [bold cyan]".toList ++ rest))) =
        "/dim".toList :: "bold cyan".toList :: tagsFrom 0 rest := rfl
  have hclose (rest : List Char) : "[/bold cyan]".toList ++ ("\n".toList ++ ("".toList ++ ("\n".toList ++
      ("[dim]Tip: make sure ".toList ++ rest)))) =
        '[' :: ("/bold cyan]\n\n[dim]Tip: make sure ".toList ++ rest) := rfl
  have htip (rest : List Char) : tagsFrom 0 ("/bold cyan]\n\n[dim]Tip: make sure ".toList ++ rest) =
      "dim".toList :: tagsFrom 0 rest := rfl
  have hname (rest : List Char) : ("/bold cyan]\n\n[dim]Tip: make sure ".toList ++ rest).takeWhile (· != ']') =
      "/bold cyan".toList := rfl
  have htag (rest : List Char) : opensTag ("/bold cyan]\n\n[dim]Tip: make sure ".toList ++ rest) = true := rfl
  have hend : " is in .gitignore[/dim]".toList = ' ' :: "is in .gitignore[/dim]".toList := rfl
  unfold closesStyles
  simp only [String.toList_intercalate, List.map_cons, List.map_nil, List.intercalate_cons_cons,
    List.intercalate_singleton, String.toList_append, List.append_assoc, hstring]
  rw [hfront, tagsFrom_append_of_forall fun c => mem_number, hsaved, tagsFrom_append_of_forall hnoun,
    htarget, hclose, hend]
  have hlast : tagsFrom 0 (file.toList ++ ' ' :: "is in .gitignore[/dim]".toList) = ["/dim".toList] :=
    tagsFrom_name_append (leavesTags_of_head? rfl (by decide)) (by decide) hfile
  rcases tagsFrom_name_tag (htag _) hfile with htags | htags
  · rw [htags, hname, htip, hlast]
    decide
  · rw [htags, htip, hlast]
    decide

section Shown

variable (hrenders : ∀ markup, closesStyles markup = true → renders markup) (hfile : ¬HasTag file.toList)

include hrenders hfile

theorem renders_notIgnoredWarning : ∀ event ∈ notIgnoredWarning file, event.Renders renders := by
  rw [notIgnoredWarning, List.forall_mem_cons, List.forall_mem_cons, List.forall_mem_singleton]
  exact ⟨hrenders _ (by decide), hrenders _ (closesStyles_warning hfile),
    hrenders _ (closesStyles_advice hfile)⟩

theorem renders_syncedLine (count : Int) : ∀ event ∈ syncedLine count file, event.Renders renders := by
  unfold syncedLine
  split
  · rw [List.forall_mem_singleton]
    refine hrenders _ (closesStyles_synced hfile count ?_)
    split <;> simp
  · exact List.forall_mem_nil _

theorem renders_summary (saved : Int) : ∀ event ∈ summary saved file, event.Renders renders := by
  unfold summary
  split
  · rw [List.forall_mem_cons, List.forall_mem_singleton]
    exact ⟨hrenders _ (by decide), hrenders _ (by decide), by simp⟩
  · rw [List.forall_mem_cons, List.forall_mem_singleton]
    refine ⟨hrenders _ (by decide), hrenders _ (closesStyles_complete hfile saved ?_), by simp⟩
    split <;> simp

theorem renders_errorLine : (line s!"[red]Error:[/red] {file}").Renders renders := by
  have hfront (rest : List Char) : tagsFrom 0 ("[red]Error:[/red] ".toList ++ rest) =
      "red".toList :: "/red".toList :: tagsFrom 0 rest := rfl
  have hnone : LeavesTags [] := leavesTags_of_head? rfl (by decide)
  have hmessage := tagsFrom_append_of_not_hasTag hnone hfile 0
  rw [List.append_nil] at hmessage
  refine hrenders _ ?_
  unfold closesStyles
  simp only [String.toList_append, toString]
  rw [hfront, hmessage]
  rfl

end Shown

end EnvFill.Screen
