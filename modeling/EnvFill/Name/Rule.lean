import EnvFill.Name.Basic
import EnvFill.Sorted

/-!
The ways in which code refers to environment variables, each with the expression that captures the
name. A text is searched with every rule, and the names of all of them are taken together.
-/

namespace EnvFill.Name

open Regex

inductive Convention where
  | member
  | bracket
  | call
  | publicStart
  | interpolation
  deriving DecidableEq, Repr

def Convention.label : Convention → String
  | .member => "member"
  | .bracket => "bracket"
  | .call => "call"
  | .publicStart => "prefix"
  | .interpolation => "interpolation"

structure Rule where
  convention : Convention
  ecosystem : String
  regex : Regex

namespace Rule

def anyQuote : Regex := .one fun c => c == '\'' || c == '"'

def member (ecosystem lead : String) : Rule where
  convention := .member
  ecosystem := ecosystem
  regex := inOrder [literal lead, .group shape]

def bracket (ecosystem lead : String) : Rule where
  convention := .bracket
  ecosystem := ecosystem
  regex := inOrder
    [literal lead, .one (· == '['), anyQuote, .group shape, anyQuote, .one (· == ']')]

def call (ecosystem lead : String) : Rule where
  convention := .call
  ecosystem := ecosystem
  regex := inOrder
    [literal lead, .one (· == '('), .many Text.isBlank, anyQuote, .group shape, anyQuote]

/-- A whole word that begins with what a build tool exposes to browsers. -/
def publicStart (ecosystem lead : String) : Rule where
  convention := .publicStart
  ecosystem := ecosystem
  regex := inOrder
    [.wordEdge, .group (inOrder [literal lead, oneOrMore isNameChar]), .wordEdge]

def braced (ecosystem : String) : Rule where
  convention := .interpolation
  ecosystem := ecosystem
  regex := inOrder [literal "$\x7b", .group shape, literal "\x7d"]

/-- The name after a dollar sign, up to the end of a word. -/
def dollar (ecosystem : String) : Rule where
  convention := .interpolation
  ecosystem := ecosystem
  regex := inOrder [.one (· == '$'), .group shape, .wordEdge]

def extract (rule : Rule) (text : List Char) : List String :=
  (rule.regex.findAll text).filterMap fun found =>
    found.captured.map fun name => String.ofList name.toList

end Rule

def rules : List Rule :=
  [.member "node" "process.env.",
    .bracket "node" "process.env",
    .member "vite" "import.meta.env.",
    .publicStart "next" "NEXT_PUBLIC_",
    .publicStart "react" "REACT_APP_",
    .publicStart "vite" "VITE_",
    .publicStart "nuxt" "NUXT_",
    .publicStart "expo" "EXPO_PUBLIC_",
    .call "python" "os.environ.get",
    .bracket "python" "os.environ",
    .call "python" "os.getenv",
    .bracket "ruby" "ENV",
    .call "ruby" "ENV.fetch",
    .call "php" "env",
    .call "java" "System.getenv",
    .call "go" "os.Getenv",
    .call "rust" "std::env::var",
    .braced "compose",
    .dollar "shell"]

def candidates (text : List Char) : List String :=
  Sorted.ofList ((rules.flatMap (Rule.extract · text)).filter isCandidate)

end EnvFill.Name
