import EnvFill.Screen.Event
import EnvFill.Text.Blank
import EnvFill.Text.Lower

/-!
Conversations: what is shown goes to the screen, and what is asked for is read line by line. Where a
line is wanted and none is left, the conversation ends.
-/

namespace EnvFill.Screen

open Text

/-- What a conversation works on: the lines still to be read, all that has happened on the screen,
and the group heading that was shown last. -/
structure Terminal where
  input : List String
  events : List Event
  heading : Option String

def Terminal.start (input : List String) : Terminal := ⟨input, [], none⟩

structure EndOfInput where
  deriving DecidableEq, Repr

abbrev Dialogue (α : Type) := ExceptT EndOfInput (StateM Terminal) α

namespace Dialogue

/-- Shows something. That the screen takes it is not asked here: markup with a tag that closes nothing would be
an error of the screen. -/
def display (events : List Event) : Dialogue Unit :=
  modify fun terminal => { terminal with events := terminal.events ++ events }

/-- Asks for a line. The question is seen even if there is no answer. -/
def readLine (prompt : String) (hidden : Bool) : Dialogue String := do
  display [.asked prompt hidden]
  match (← get).input with
  | [] => throw ⟨⟩
  | answer :: rest =>
    modify fun terminal => { terminal with input := rest }
    return answer

def repeated {α : Type} (attempt : Dialogue (Option α)) : Nat → Dialogue α
  | 0 => throw ⟨⟩
  | rounds + 1 => do
    match ← attempt with
    | some a => return a
    | none => repeated attempt rounds

/-- Repeats a question until it has an answer. Every attempt is to read a line, so there are no more
of them than lines and one that finds the end. -/
def untilAnswered {α : Type} (attempt : Dialogue (Option α)) : Dialogue α := do
  repeated attempt ((← get).input.length + 1)

end Dialogue

structure Prompt where
  text : String
  choices : List String := []
  usual : String
  showUsual : Bool := true
  hidden : Bool := false

namespace Prompt

def shown (prompt : Prompt) : String :=
  let choices :=
    if prompt.choices.isEmpty then "" else " [" ++ "/".intercalate prompt.choices ++ "]"
  let usual := if prompt.showUsual then " (" ++ prompt.usual ++ ")" else ""
  prompt.text ++ choices ++ usual ++ ": "

/-- The answer that a line gives, if it is allowed. An empty line stands for the usual answer. -/
def accept (prompt : Prompt) (line : String) : Option String :=
  if line.isEmpty then some prompt.usual
  else
    let answer := String.ofList (strip line.toList)
    if prompt.choices.isEmpty || prompt.choices.contains answer then some answer else none

def ask (prompt : Prompt) : Dialogue String :=
  Dialogue.untilAnswered do
    match prompt.accept (← Dialogue.readLine prompt.shown prompt.hidden) with
    | some answer => return some answer
    | none =>
      Dialogue.display
        [line "[prompt.invalid.choice]Please select one of the available options"]
      return none

end Prompt

/-- Whether a line says yes or no. An empty line stands for the usual answer. -/
def confirmation (usual : Bool) (line : String) : Option Bool :=
  if line.isEmpty then some usual
  else
    let answer := lowerText (strip line.toList)
    if answer = ['y'] then some true else if answer = ['n'] then some false else none

def confirm (text : String) (usual : Bool) : Dialogue Bool :=
  let question := text ++ " [y/n] (" ++ (if usual then "y" else "n") ++ "): "
  Dialogue.untilAnswered do
    match confirmation usual (← Dialogue.readLine question false) with
    | some answer => return some answer
    | none =>
      Dialogue.display [line "[prompt.invalid]Please enter Y or N"]
      return none

end EnvFill.Screen
