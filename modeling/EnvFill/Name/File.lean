/-!
Names of files: which ones hold code that may refer to variables, which ones hold settings, and
which settings files are there to be copied.
-/

namespace EnvFill.Name

def codeEndings : List String :=
  ["js", "jsx", "ts", "tsx", "mjs", "cjs", "py", "rb", "php", "go", "rs", "java", "vue", "svelte",
    "astro", "yml", "yaml", "toml", "sh", "bash", "zsh", "env.example", "env.sample",
    "env.template", "Dockerfile"]

def codeFiles : List String :=
  ["Dockerfile", "docker-compose.yml", "docker-compose.yaml", ".env.example", ".env.sample",
    ".env.template", ".env.local.example", "Makefile"]

def endsWith (name ending : String) : Bool := ending.toList.isSuffixOf name.toList

def isCodeFile (name : String) : Bool :=
  codeFiles.contains name || codeEndings.any fun ending => endsWith name ("." ++ ending)

/-- Settings files in use, which are compared with and not searched. -/
def runtimeFiles : List String := [".env", ".env.local"]

/-- Settings files whose keys name variables. -/
def sourceFiles : List String :=
  [".env", ".env.local", ".env.development", ".env.production", ".env.example", ".env.sample",
    ".env.template", ".env.local.example"]

/-- Settings files that make a folder one to be filled in. -/
def markerFiles : List String :=
  [".env", ".env.local", ".env.development", ".env.production", ".env.example", ".env.sample",
    ".env.template"]

def writableFiles : List String := [".env", ".env.local", ".env.development", ".env.production"]

def occursIn (part : List Char) : List Char → Bool
  | [] => part.isEmpty
  | c :: rest => part.isPrefixOf (c :: rest) || occursIn part rest

def isTemplate (name : String) : Bool :=
  ["example", "sample", "template"].any fun tag => occursIn tag.toList name.toList

end EnvFill.Name
