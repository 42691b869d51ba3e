import EnvFill.Fill.Coverage
import EnvFill.Text.Lower

/-!
A session asks for the values of variables one after another and saves each answer before the next
question. What one answer leads to is the function `advance?`; `run` repeats it with any way of
asking and saving, and `replay` with a list of answers.
-/

namespace EnvFill.Fill

open EnvFile Text

inductive Command where
  | skip
  | back
  | clear
  | stop
  | skipAll
  | paste
  deriving DecidableEq, Repr

def Command.words : List (String × Command) :=
  [("skip", .skip), ("back", .back), ("clear", .clear), ("exit", .stop), ("quit", .stop),
    ("skipall", .skipAll), ("paste", .paste)]

def commandWord (line : String) : String := String.ofList (lowerText (strip line.toList))

def Command.parse? (line : String) : Option Command := Command.words.lookup (commandWord line)

inductive Response where
  | value (text : String)
  | skip
  | back
  | clear
  | stop
  | skipAll
  | paste (text : String)
  deriving DecidableEq, Repr

/-- What an answer leads to: the place of the next question, the settings to save at once, and
whether the session ends, by the user's wish or not, with how many variables skipped. -/
structure Step where
  index : Int
  writes : Entries
  done : Bool
  stopped : Bool
  skipped : Int

namespace Step

def next (index total : Int) (writes : Entries) (skipped : Int) : Step :=
  ⟨index + 1, writes, total ≤ index + 1, false, skipped⟩

/-- What an answer about `key`, the variable at `index` of `total`, leads to. -/
def of (key : String) (index total : Int) : Response → Step
  | .back => ⟨max (index - 1) 0, ∅, false, false, 0⟩
  | .stop => ⟨index, ∅, true, true, 0⟩
  | .skipAll => ⟨total, ∅, true, true, total - index⟩
  | .paste text => ⟨total, Entries.ofPaste text, true, false, 0⟩
  | .skip => next index total ∅ 1
  | .clear => next index total (OrderedMap.ofList [(key, "")]) 0
  | .value text => next index total (OrderedMap.ofList [(key, text)]) 0

end Step

/-- The name at an index. Negative indices count from the end, the last name being at minus one. -/
def nameAt? (names : List String) (index : Int) : Option String :=
  let place := if index < 0 then index + names.length else index
  if place < 0 then none else names[place.toNat]?

/-- What an answer to the question at `index` leads to; there is no question past either end. -/
def advance? (index : Int) (names : List String) (response : Response) : Option Step :=
  (nameAt? names index).map fun key => Step.of key index names.length response

/-- A question: the variable, its place, its present value, the files that mention it, the counts at
this time and the variables after it. -/
structure Question where
  key : String
  index : Int
  total : Int
  current : String
  files : List String
  stats : Stats
  remaining : List String
  deriving DecidableEq, Repr

structure Session where
  index : Nat
  existing : Entries
  values : Entries
  skipped : Int
  stopped : Bool

namespace Session

def start (existing : Entries) : Session := ⟨0, existing, ∅, 0, false⟩

def question (names : List String) (found : Found) (session : Session) (key : String) :
    Question where
  key := key
  index := session.index
  total := names.length
  current := (session.existing.get? key).getD ""
  files := found.files key
  stats := reconcile found session.existing
  remaining := names.drop (session.index + 1)

/-- The session after a step; `existing` is what its save left. -/
def after (session : Session) (step : Step) (existing : Entries) : Session where
  index := if step.done then session.index else step.index.toNat
  existing := existing
  values := session.values.merge step.writes
  skipped := session.skipped + step.skipped
  stopped := step.done && step.stopped

variable {m : Type → Type} [Monad m]

/-- Asks at most `rounds` questions. `save` gets the settings there were and the new ones, and gives
the settings there are then. -/
def run (names : List String) (found : Found) (ask : Question → m Response)
    (save : Entries → Entries → m Entries) : Nat → Session → m Session
  | 0, session => pure session
  | rounds + 1, session =>
    match names[session.index]? with
    | none => pure session
    | some key => do
      let response ← ask (session.question names found key)
      let step := Step.of key session.index names.length response
      let existing ←
        if step.writes.isEmpty then pure session.existing else save session.existing step.writes
      let session := session.after step existing
      if step.done then pure session else run names found ask save rounds session

inductive Event where
  | asked (question : Question)
  | saved (writes : Entries)

structure Replay where
  answers : List Response
  events : List Event

/-- Takes the next answer; without one the session is stopped. -/
def Replay.ask (question : Question) : StateM Replay Response := fun replay =>
  let events := replay.events ++ [.asked question]
  match replay.answers with
  | [] => (.stop, ⟨[], events⟩)
  | answer :: answers => (answer, ⟨answers, events⟩)

def Replay.save (existing writes : Entries) : StateM Replay Entries := fun replay =>
  (existing.merge writes, { replay with events := replay.events ++ [.saved writes] })

/-- A session with the given answers: what happened, and how it ended. Every round takes an answer,
or the stop after the last one. -/
def replay (names : List String) (found : Found) (existing : Entries) (answers : List Response) :
    List Event × Session :=
  let (session, replay) :=
    (run names found Replay.ask Replay.save (answers.length + 1) (start existing)).run ⟨answers, []⟩
  (replay.events, session)

end Session

end EnvFill.Fill
