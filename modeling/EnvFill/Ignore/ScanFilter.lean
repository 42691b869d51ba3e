import EnvFill.Storage.Pathname
import EnvFill.Ignore.Pattern
import EnvFill.Sorted

/-!
What a scan leaves out: directories of dependencies, of version control and of build results, and
what further patterns name. Paths are seen from the root of the scan; paths elsewhere are never left
out.
-/

namespace EnvFill.Ignore

open Storage Text

def skippedDirectories : List String :=
  ["node_modules", ".git", "dist", "build", ".next", ".nuxt", ".output", "coverage", "__pycache__",
    "vendor", ".venv", "venv", "target", ".cache", ".turbo"]

def standardPatterns : List String := Sorted.ofList (skippedDirectories.map (· ++ "/"))

def withoutBlank (lines : List String) : List String :=
  lines.filter fun line => !isAllBlank line.toList

structure ScanFilter where
  patterns : List Pattern

namespace ScanFilter

def build (extra : List String) : Except PatternError ScanFilter :=
  (parsePatterns (standardPatterns ++ withoutBlank extra)).map ScanFilter.mk

def withSlashes (path : String) : String :=
  String.ofList (path.toList.map fun c => if c = '\\' then '/' else c)

/-- The path as patterns see it; an absolute path must lie below `root`. -/
def visiblePath? (root path : Pathname) : Option String :=
  if path.isAbsolute then (root.relativeTo? path).map fun below => withSlashes below.toString
  else some (withSlashes path.toString)

def directoryPath (path : String) : String :=
  String.ofList (dropEndWhile (· == '/') path.toList ++ ['/'])

def ignoresFile (filter : ScanFilter) (root path : Pathname) : Bool :=
  (visiblePath? root path).any (ignores filter.patterns)

def ignoresDirectory (filter : ScanFilter) (root path : Pathname) : Bool :=
  (visiblePath? root path).any fun visible => ignores filter.patterns (directoryPath visible)

end ScanFilter

end EnvFill.Ignore
