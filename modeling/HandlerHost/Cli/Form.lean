import HandlerHost.Text.Natural

/-! The commands of the command line: what they take, and how that is shown to a reader. -/
namespace HandlerHost.Cli

/-- What the value of an option may be. -/
inductive ValueKind
  | text
  /-- A path, which is not empty. -/
  | path
  /-- A natural number below 2^64. -/
  | word
deriving DecidableEq

namespace ValueKind

def wordOf? (text : String) : Option UInt64 := Text.word? text.toList

def accepts : ValueKind → String → Bool
  | text, _ => true
  | path, value => !value.isEmpty
  | word, value => (wordOf? value).isSome

end ValueKind

/-- An option. One that takes a value has a name for it. -/
structure Switch where
  name : String
  short : Option Char
  value : Option String
  about : String
  kind : ValueKind := .text
  needed : Bool := false
deriving DecidableEq

/-- A plain argument. -/
structure Operand where
  name : String
  about : String
  needed : Bool := false
  repeated : Bool := false
deriving DecidableEq

structure Form where
  name : String
  about : String
  switches : List Switch := []
  operand : Option Operand := none
  /-- All that follows are plain arguments, even what begins like an option. -/
  plain : Bool := false
deriving DecidableEq

/-- The name of the program. -/
def programName : String := "funcbox"

def version : String := "0.1.0"

def about : String := "A tool for invoking function handlers in ephemeral processes"

namespace Switch

def config : Switch where
  name := "config"
  short := 'c'
  value := "CONFIG"
  kind := .path
  about := "Path to configuration file"

def verbose : Switch where
  name := "verbose"
  short := 'v'
  value := none
  about := "Enable verbose output"

/-- The options that every command takes. -/
def everywhere : List Switch := [config, verbose]

def output : Switch where
  name := "output"
  short := 'o'
  value := "OUTPUT"
  kind := .path
  about := "Output path (default: funcbox.toml) [default: funcbox.toml]"

def force : Switch where
  name := "force"
  short := 'f'
  value := none
  about := "Overwrite existing file"

def runtime : Switch where
  name := "runtime"
  short := 'r'
  value := "RUNTIME"
  about := "Runtime ID (javascript, typescript, python)"
  needed := true

def event : Switch where
  name := "event"
  short := 'e'
  value := "EVENT"
  about := "Event as inline JSON"

def eventFile : Switch where
  name := "event-file"
  short := none
  value := "PATH"
  kind := .path
  about := "Read the event from a JSON file"

def handler : Switch where
  name := "handler"
  short := none
  value := "HANDLER"
  about := "Name of the exported handler function"

def timeout : Switch where
  name := "timeout-ms"
  short := 't'
  value := "TIMEOUT_MS"
  kind := .word
  about := "Deadline in milliseconds"

def help : Switch where
  name := "help"
  short := 'h'
  value := none
  about := "Print help"

def printVersion : Switch where
  name := "version"
  short := 'V'
  value := none
  about := "Print version"

end Switch

namespace Form

def init : Form where
  name := "init"
  about := "Initialize a new configuration file"
  switches := [.output, .force]

def invoke : Form where
  name := "invoke"
  about := "Invoke a handler from a source file"
  switches := [.runtime, .event, .eventFile, .handler, .timeout]
  operand := some { name := "FILE", about := "Handler source file", needed := true }

def request : Form where
  name := "request"
  about := "Run a JSON invocation request (default: read from stdin)"
  operand := some { name := "FILE", about := "Request file" }

def runtimes : Form where
  name := "runtimes"
  about := "List runtimes and the interpreter each one resolves to"

def showConfig : Form where
  name := "show-config"
  about := "Show effective configuration"

def help : Form where
  name := "help"
  about := "Print this message or the help of the given subcommand(s)"
  operand := some
    { name := "COMMAND", about := "Print help for the subcommand(s)", repeated := true }
  plain := true

def all : List Form := [init, invoke, request, runtimes, showConfig, help]

def ofName? (name : String) : Option Form := all.find? fun f => f.name == name

end Form

/-! ### Help -/

def padRight (s : String) (width : Nat) : String := s ++ "".pushn ' ' (width - s.length)

/-- Rows of two columns, under a title. -/
def table (title : String) (rows : List (String × String)) : String :=
  let width := (rows.map fun r => r.1.length).foldl max 0
  title ++ ":\n" ++
    String.join (rows.map fun r => "  " ++ padRight r.1 width ++ "  " ++ r.2 ++ "\n")

namespace Switch

def valueText (s : Switch) : String :=
  match s.value with
  | none => ""
  | some v => " <" ++ v ++ ">"

def row (s : Switch) : String × String :=
  let short :=
    match s.short with
    | some c => "-" ++ String.ofList [c] ++ ", "
    | none => "    "
  (short ++ "--" ++ s.name ++ s.valueText, s.about)

/-- The place among options of one rank: by letter, or by name for one without. -/
def sortKey (s : Switch) : String :=
  match s.short with
  | some c => String.ofList [c]
  | none => s.name

/-- Options in the order in which they are shown: those of a command and those of every command
stand together by their rank. -/
def shown (own : List Switch) : List Switch :=
  let ranked := (own.zipIdx ++ everywhere.zipIdx).mergeSort fun a b =>
    a.2 < b.2 || (a.2 == b.2 && decide (a.1.sortKey ≤ b.1.sortKey))
  ranked.map Prod.fst

end Switch

namespace Operand

def text (o : Operand) : String :=
  (if o.needed then "<" ++ o.name ++ ">" else "[" ++ o.name ++ "]") ++
    (if o.repeated then "..." else "")

end Operand

namespace Form

/-- How a command is called. -/
def usage (f : Form) : String :=
  let options := if f.plain then [] else [" [OPTIONS]"]
  let needed := (f.switches.filter Switch.needed).map fun s => " --" ++ s.name ++ s.valueText
  let operand := f.operand.toList.map fun o => " " ++ o.text
  "Usage: " ++ programName ++ " " ++ f.name ++ String.join (options ++ needed ++ operand)

/-- What is shown of a command. -/
def helpText (f : Form) : String :=
  let operands := f.operand.toList.map fun o => table "Arguments" [(o.text, o.about)]
  let rows := (Switch.shown f.switches ++ [Switch.help]).map Switch.row
  let options := if f.plain then [] else [table "Options" rows]
  String.intercalate "\n" ([f.about ++ "\n", f.usage ++ "\n"] ++ operands ++ options)

end Form

/-- What is shown of the program. -/
def helpText : String :=
  about ++ "\n\nUsage: " ++ programName ++ " [OPTIONS] <COMMAND>\n\n" ++
    table "Commands" (Form.all.map fun f => (f.name, f.about)) ++ "\n" ++
    table "Options" ((Switch.shown [] ++ [Switch.help, Switch.printVersion]).map Switch.row)

end HandlerHost.Cli
