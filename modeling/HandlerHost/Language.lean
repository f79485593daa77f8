import HandlerHost.Text.Blank

/-! The languages that handlers are written in. -/
namespace HandlerHost

inductive Language
  | javascript
  | typescript
  | python
deriving DecidableEq, Inhabited

/-- A program with its leading arguments. -/
structure Command where
  program : String
  args : List String
deriving DecidableEq

namespace Language

def all : List Language := [javascript, typescript, python]

def id : Language → String
  | javascript => "javascript"
  | typescript => "typescript"
  | python => "python"

/-- The names of a language, its id first. -/
def names : Language → List String
  | javascript => ["javascript", "js", "node", "nodejs"]
  | typescript => ["typescript", "ts"]
  | python => ["python", "python3", "py"]

/-- Blanks around a name and the case of its letters do not matter. -/
def ofName? (name : String) : Option Language :=
  let name := Text.lowerAscii (Text.trim name)
  all.find? fun l => l.names.contains name

def ofId? (id : String) : Option Language := all.find? fun l => l.id == id

/-- The refusal of an unknown name. -/
def unsupportedText (name : String) : String :=
  "unsupported runtime '" ++ name ++ "' (expected one of: " ++
    String.intercalate ", " (all.map id) ++ ")"

/-- The extension of a source file. -/
def extension : Language → String
  | javascript => "js"
  | typescript => "ts"
  | python => "py"

def sourceFile (l : Language) : String := "handler." ++ l.extension

/-- The file of the generated script that runs a handler. -/
def runnerFile : Language → String
  | javascript => "runner.mjs"
  | typescript => "runner.mjs"
  | python => "runner.py"

/-- Interpreters in order of preference. -/
def interpreters : Language → List Command
  | javascript => [⟨"node", []⟩, ⟨"nodejs", []⟩, ⟨"bun", ["run"]⟩]
  | typescript =>
    [⟨"bun", ["run"]⟩,
      ⟨"node", ["--experimental-strip-types", "--disable-warning=ExperimentalWarning"]⟩]
  | python => [⟨"python3", ["-u"]⟩, ⟨"python", ["-u"]⟩]

end Language

end HandlerHost
