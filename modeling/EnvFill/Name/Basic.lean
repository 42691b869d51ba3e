import EnvFill.Regex.Occurrence
import EnvFill.Text.Blank

/-!
Names of environment variables as programs use them: capital letters, digits and underscores. Names
that a system or a shell sets on its own are never of interest.
-/

namespace EnvFill.Name

open Regex

def isCapital (c : Char) : Bool := 'A' ≤ c && c ≤ 'Z'

def isNameChar (c : Char) : Bool := isCapital c || ('0' ≤ c && c ≤ '9') || c == '_'

/-- The shape of a name: a capital letter and at least one more character. -/
def shape : Regex := .seq (.one isCapital) (oneOrMore isNameChar)

def reserved : List String :=
  ["NODE_ENV", "HOME", "PATH", "USER", "SHELL", "PWD", "LANG", "TERM", "HOSTNAME", "OLDPWD",
    "EDITOR", "TMPDIR", "TMP", "TEMP", "CI", "NODE", "NPM", "NVM", "SHLVL", "LOGNAME", "LC_ALL",
    "LC_CTYPE", "DISPLAY", "COLORTERM", "COLUMNS", "LINES", "SSH_AUTH_SOCK", "SSH_CLIENT",
    "SSH_CONNECTION", "SSH_TTY", "XDG_SESSION_ID", "XDG_RUNTIME_DIR", "XDG_DATA_DIRS",
    "XDG_CONFIG_DIRS", "DBUS_SESSION_BUS_ADDRESS", "MAIL", "MANPATH", "PAGER", "LESS", "_"]

def minLength : Nat := 3

def isCandidate (name : String) : Bool := !reserved.contains name && minLength ≤ name.length

def isVariableKey (key : String) : Bool :=
  (inOrder [.start, shape, .stop]).occursIn key.toList && !reserved.contains key

end EnvFill.Name
