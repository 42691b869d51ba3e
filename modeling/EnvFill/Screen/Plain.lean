import EnvFill.Screen.Event
import EnvFill.Screen.Markup

/-!
The screen as plain text: styles are left out, cells stand apart by two blanks, and panels have no
border.
-/

namespace EnvFill.Screen

/-- Leaves the tags out of a text that comes after `pending` backslashes; an odd number of these
makes a tag part of the text. `inTag` says that a tag is being left out. -/
def plainFrom (inTag : Bool) (pending : Nat) : List Char → List Char
  | [] => List.replicate pending '\\'
  | c :: rest =>
    if inTag then plainFrom (c != ']') 0 rest
    else if c = '\\' then plainFrom false (pending + 1) rest
    else if c = '[' && opensTag rest then
      if pending % 2 = 1 then List.replicate (pending / 2) '\\' ++ c :: plainFrom false 0 rest
      else List.replicate (pending / 2) '\\' ++ plainFrom true 0 rest
    else List.replicate pending '\\' ++ c :: plainFrom false 0 rest

def plain (markup : String) : String := String.ofList (plainFrom false 0 markup.toList)

def Content.plain : Content → String
  | .markup text => Screen.plain text
  | .pieces items => String.join (items.map Prod.fst)
  | .table columns rows =>
    let heading := if columns.isEmpty then [] else [columns.map Column.header]
    "\n".intercalate ((heading ++ rows).map fun row => "  ".intercalate (row.map Screen.plain))
  | .panel body title _ =>
    match title with
    | some title => Screen.plain title ++ "\n" ++ body.plain
    | none => body.plain

/-- What an event writes: a line, or a question that an answer follows. -/
def Event.plain : Event → String
  | .shown content => content.plain ++ "\n"
  | .asked prompt _ styled => if styled then Screen.plain prompt else prompt
  | .working text => text ++ "...\n"

def Event.isQuestion : Event → Bool
  | .asked _ _ _ => true
  | _ => false

/-- The events through the question that comes after `answered` others. -/
def throughQuestion (answered : Nat) : List Event → List Event
  | [] => []
  | event :: rest =>
    if event.isQuestion then
      match answered with
      | 0 => [event]
      | answered + 1 => event :: throughQuestion answered rest
    else event :: throughQuestion answered rest

end EnvFill.Screen
