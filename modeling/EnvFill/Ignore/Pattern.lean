import EnvFill.Ignore.Glob

/-!
Lines of an ignore file, and the expressions on paths that they stand for. A line may begin with
`!`, which takes paths out again; a slash anywhere but at its end ties it to the root; a slash at
its end restricts it to what lies in directories; and `**` stands for any number of components.
-/

namespace EnvFill.Ignore

open Regex Text

/-- A pattern: whether it takes paths out again, and which paths it applies to. -/
structure Pattern where
  negated : Bool
  regex : Regex

inductive PatternError where
  /-- It is no pattern. -/
  | notPattern (line : String)
  /-- A range in brackets ends before it begins. -/
  | badRange (low high : Char)
  deriving DecidableEq, Repr

namespace Pattern

def anyDepth : List Char := ['*', '*']

/-- Removes the blanks that end a line, unless the last of them is a space behind a backslash. -/
def trim (line : List Char) : List Char :=
  if ['\\', ' '].isSuffixOf line then line else dropEndWhile isBlank line

/-- A single component may lie at any depth, and one written after a slash lies at the root. -/
def anchorComponents : List (List Char) → List (List Char)
  | [] :: rest => rest
  | [component] => if component = anyDepth then [component] else [anyDepth, component]
  | [component, []] => if component = anyDepth then [component, []] else [anyDepth, component, []]
  | components => components

def openEnd (components : List (List Char)) : List (List Char) :=
  if components.getLast? = some [] then components.dropLast ++ [anyDepth] else components

/-- Neighbouring `**` are one. -/
def mergeAnyDepth : List (List Char) → List (List Char)
  | [] => []
  | component :: rest =>
    if component = anyDepth && rest.head? = some anyDepth then mergeAnyDepth rest
    else component :: mergeAnyDepth rest

def slash : Regex := .one (· == '/')

def anything : Regex := oneOrMore (· != '\n')

/-- The expressions for the components from some place on. `isFirst` says that they begin the
pattern, and `afterSlash` that a slash separates them from what was before. -/
def components? (isFirst afterSlash : Bool) : List (List Char) → Except Fault (List Regex)
  | [] => .ok []
  | component :: rest =>
    if component = anyDepth then
      if isFirst then
        (components? false afterSlash rest).map ([.start, maybe (.seq anything slash)] ++ ·)
      else if rest.isEmpty then .ok [slash]
      else (components? false true rest).map ([maybe (.seq slash anything)] ++ ·)
    else do
      let here ← if component = ['*'] then .ok (oneOrMore notSlash) else glob? component
      let later ← components? false true rest
      return (if isFirst then [.start] else []) ++ (if afterSlash then [slash] else []) ++ [here] ++
        (if rest.isEmpty then [.alt slash .stop] else []) ++ later

/-- The expression for all components. Patterns of `*` and `**` alone ask only for any path or for a
slash in it. That ranges are in order is asked only of an expression that was written to its end. -/
def expression? (isDirectory : Bool) (components : List (List Char)) : Except Fault Regex :=
  if components = [anyDepth] then .ok (if isDirectory then slash else .one (· != '\n'))
  else if components = [anyDepth, ['*']] then .ok (.one (· != '\n'))
  else if components = [anyDepth, ['*'], anyDepth] then .ok slash
  else do
    let parts ← components? true false components
    match reversedRange? (components.flatMap rangesIn) with
    | some (low, high) => .error (.badRange low high)
    | none => .ok (inOrder parts)

/-- The pattern that a line writes. Blank lines, comments, a single slash and patterns with an open
bracket have no effect. -/
def parse? (line : String) : Except PatternError (Option Pattern) :=
  match trim line.toList with
  | [] => .ok none
  | '#' :: _ => .ok none
  | ['/'] => .ok none
  | first :: rest =>
    let negated := first == '!'
    let components := splitAtEach (· == '/') (if negated then rest else first :: rest)
    let isDirectory := components.getLast? = some []
    match anchorComponents components with
    | [] => .error (.notPattern line)
    | anchored =>
      match expression? isDirectory (mergeAnyDepth (openEnd anchored)) with
      | .ok regex => .ok (some ⟨negated, regex⟩)
      | .error .openBracket => .ok none
      | .error .loneBackslash => .error (.notPattern line)
      | .error (.badRange low high) => .error (.badRange low high)

end Pattern

def parsePatterns : List String → Except PatternError (List Pattern)
  | [] => .ok []
  | line :: lines => do
    let pattern ← Pattern.parse? line
    let patterns ← parsePatterns lines
    return pattern.toList ++ patterns

/-- A path as patterns see it: without a slash, or a dot and a slash, at its beginning. -/
def plainPath : List Char → List Char
  | '/' :: rest => rest
  | '.' :: '/' :: rest => rest
  | path => path

/-- Whether a path is ignored: the last pattern that applies decides. -/
def ignores (patterns : List Pattern) (path : String) : Bool :=
  match patterns.reverse.find? fun pattern => pattern.regex.occursIn (plainPath path.toList) with
  | some pattern => !pattern.negated
  | none => false

end EnvFill.Ignore
