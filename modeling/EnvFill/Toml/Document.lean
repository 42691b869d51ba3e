import EnvFill.Toml.Scalar
import EnvFill.Toml.Table

/-!
TOML documents. A document is read statement by statement; besides its data, a record is kept of the
tables that may not be opened again and of the values that may not be added to.
-/

namespace EnvFill.Toml

def isLineBlank (c : Char) : Bool := c == ' ' || c == '\t'

def skipLineBlanks (text : List Char) : List Char := text.dropWhile isLineBlank

def isBareKeyChar (c : Char) : Bool := c.isAlphanum || c == '-' || c == '_'

def keyPart? (text : List Char) : Option (List Char × List Char) :=
  match text.takeWhile isBareKeyChar with
  | [] => readLine? text
  | bare => some (bare, text.dropWhile isBareKeyChar)

/-- At most so many parts of a dotted key, and what follows them and the blanks behind. -/
def keyParts? : Nat → List Char → Option (Key × List Char)
  | 0, _ => none
  | parts + 1, text => do
    let (part, rest) ← keyPart? text
    match skipLineBlanks rest with
    | '.' :: rest =>
      let (key, rest) ← keyParts? parts (skipLineBlanks rest)
      return (String.ofList part :: key, rest)
    | rest => return ([String.ofList part], rest)

/-- A dotted key. Each of its parts takes a character at least. -/
def key? (text : List Char) : Option (Key × List Char) := keyParts? (text.length + 1) text

def skipFiller (inComment : Bool) : List Char → Option (List Char)
  | [] => some []
  | c :: rest =>
    if c = '\n' then skipFiller false rest
    else if inComment then if isPlain false c then skipFiller true rest else none
    else if isLineBlank c then skipFiller false rest
    else if c = '#' then skipFiller true rest
    else some (c :: rest)

/-- Whether values can be added below this one: only to those that are open. -/
def Value.isClosed : Value → Bool
  | .array _ => true
  | .table _ => true
  | _ => false

def isWithin (keys : List Key) (key : Key) : Bool := keys.any fun closed => closed.isPrefixOf key

/-- Adds a pair to an inline table. `closed` are the keys whose values are complete. -/
def addInline (closed : List Key) (key : Key) (value : Value) (table : Table) : Option Table :=
  match key.getLast? with
  | none => none
  | some name =>
    if isWithin closed key then none else modifyAt false (define name value) key.dropLast table

/-- How deep values are followed into others. The number is no rule of the format: it is what a stack of 1000
calls leaves to the reader at the one depth from which the program calls it, and from deeper down it would be
less. An array counts for two, as it is a value that reads values, and an inline table for three, as it reads
pairs that read values. -/
def maxNesting : Nat := 985

mutual

/-- Reads a value that lies at the given depth within others. `steps` bounds the steps through
nested values. -/
def value (nesting : Nat) : Nat → List Char → Except Fault (Value × List Char)
  | 0, _ => .error .malformed
  | steps + 1, text =>
    if maxNesting < nesting then .error .tooDeep
    else
      match text with
      | '[' :: rest => do
        let (items, rest) ← items (nesting + 2) steps (← required (skipFiller false rest))
        return (.array items, rest)
      | '\x7b' :: rest => do
        match skipLineBlanks rest with
        | '\x7d' :: rest => return (.table [], rest)
        | rest =>
          let (table, rest) ← pairs (nesting + 3) steps [] [] rest
          return (.table table, rest)
      | _ =>
        if text.head? = some '"' || text.head? = some '\'' then do
          let (string, rest) ← required (readString? text)
          return (.string (String.ofList string), rest)
        else do return (.scalar, ← scalar text)

def items (nesting : Nat) : Nat → List Char → Except Fault (List Value × List Char)
  | 0, _ => .error .malformed
  | steps + 1, text =>
    match text with
    | ']' :: rest => .ok ([], rest)
    | _ => do
      let (item, rest) ← value nesting steps text
      match ← required (skipFiller false rest) with
      | ']' :: rest => return ([item], rest)
      | ',' :: rest =>
        let (items, rest) ← items nesting steps (← required (skipFiller false rest))
        return (item :: items, rest)
      | _ => throw .malformed

def pairs (nesting : Nat) : Nat → List Key → Table → List Char → Except Fault (Table × List Char)
  | 0, _, _, _ => .error .malformed
  | steps + 1, closed, table, text => do
    let (key, rest) ← required (key? text)
    let (value, rest) ← value nesting steps (skipLineBlanks (← required (after? '=' rest)))
    let table ← required (addInline closed key value table)
    match skipLineBlanks rest with
    | '\x7d' :: rest => return (table, rest)
    | ',' :: rest =>
      pairs nesting steps (if value.isClosed then key :: closed else closed) table
        (skipLineBlanks rest)
    | _ => throw .malformed

end

/-- A document as far as it is read: its data, the table that the next pairs go into, the tables
that are complete, those that are when the next heading comes, and the values that are complete with
all that is below. -/
structure Document where
  data : Table
  heading : Key
  opened : List Key
  pending : List Key
  closed : List Key

namespace Document

def start : Document := ⟨[], [], [], [], []⟩

def tablesAlong (heading key : Key) : List Key :=
  (List.range (key.length - 1)).map fun index => heading ++ key.take (index + 1)

def addPair (doc : Document) (key : Key) (value : Value) : Option Document := do
  let name ← key.getLast?
  let parent := doc.heading ++ key.dropLast
  let along := tablesAlong doc.heading key
  if along.any doc.opened.contains || isWithin doc.closed parent then none
  else
    let data ← modifyAt true (define name value) parent doc.data
    return { doc with
      data := data
      pending := doc.pending ++ along
      closed := if value.isClosed then (doc.heading ++ key) :: doc.closed else doc.closed }

def openTable (doc : Document) (key : Key) : Option Document := do
  let opened := doc.opened ++ doc.pending
  if opened.contains key || isWithin doc.closed key then none
  else
    let data ← modifyAt true some key doc.data
    return { doc with data := data, heading := key, opened := key :: opened, pending := [] }

/-- Opens another table of an array of tables. What lay below the key belongs to the one before. -/
def openItem (doc : Document) (key : Key) : Option Document := do
  let name ← key.getLast?
  if isWithin doc.closed key then none
  else
    let isElsewhere (other : Key) : Bool := !key.isPrefixOf other
    let data ← modifyAt true (appendTable name) key.dropLast doc.data
    return {
      data := data
      heading := key
      opened := key :: (doc.opened ++ doc.pending).filter isElsewhere
      pending := []
      closed := doc.closed.filter isElsewhere }

def statement (doc : Document) (text : List Char) : Except Fault (Document × List Char) :=
  match text with
  | [] => .ok (doc, [])
  | '\n' :: _ => .ok (doc, text)
  | '#' :: _ => .ok (doc, text)
  | '[' :: '[' :: rest => required do
    let (key, rest) ← key? (skipLineBlanks rest)
    return (← doc.openItem key, ← (after? ']' rest).bind (after? ']'))
  | '[' :: rest => required do
    let (key, rest) ← key? (skipLineBlanks rest)
    return (← doc.openTable key, ← after? ']' rest)
  | _ => do
    let (key, rest) ← required (key? text)
    let start := skipLineBlanks (← required (after? '=' rest))
    let (value, rest) ← value 0 (2 * text.length + 2) start
    return (← required (doc.addPair key value), rest)

/-- What follows a comment on a line, if there is one: the end of the line or of the text. -/
def lineEnd? (text : List Char) : Option (List Char) :=
  match skipLineBlanks text with
  | '#' :: rest =>
    let comment := rest.takeWhile (· != '\n')
    if comment.all (isPlain false) then some (rest.drop comment.length) else none
  | rest => some rest

/-- Reads at most so many lines, to the end of the text. -/
def lines : Nat → Document → List Char → Except Fault Table
  | 0, _, _ => .error .malformed
  | count + 1, doc, text => do
    let (doc, rest) ← doc.statement (skipLineBlanks text)
    match ← required (lineEnd? rest) with
    | [] => return doc.data
    | '\n' :: rest => lines count doc rest
    | _ => throw .malformed

end Document

/-- The text with a line feed for each pair of a carriage return and a line feed. -/
def withoutPairs : List Char → List Char
  | '\r' :: '\n' :: rest => '\n' :: withoutPairs rest
  | c :: rest => c :: withoutPairs rest
  | [] => []

def parse (text : List Char) : Except Fault Table :=
  let text := withoutPairs text
  Document.lines (text.length + 1) .start text

end EnvFill.Toml
