/-!
What is handed to the screen, in order. How it is laid out there is not decided here.
-/

namespace EnvFill.Screen

inductive Justification where
  | left
  | right
  deriving DecidableEq, Repr

structure Column where
  header : String
  alignment : Justification := .left
  style : String := ""
  width : Option Nat := none
  deriving DecidableEq, Repr

inductive Content where
  /-- Text with styles in square brackets. -/
  | markup (text : String)
  /-- Pieces of plain text, each with its style. -/
  | pieces (items : List (String × String))
  /-- A table; without columns it has no heading. -/
  | table (columns : List Column) (rows : List (List String))
  | panel (body : Content) (title : Option String) (border : String)

inductive Event where
  | shown (content : Content)
  /-- A line is asked for; what is typed may be hidden. The question may have styles. -/
  | asked (prompt : String) (hidden : Bool) (styled : Bool := false)
  /-- Work begins that takes a while. -/
  | working (text : String)

def line (text : String) : Event := .shown (.markup text)

def emptyLine : Event := line ""

def panel (lines : List String) (title : Option String) (border : String) : Event :=
  .shown (.panel (.markup ("\n".intercalate lines)) title border)

end EnvFill.Screen
