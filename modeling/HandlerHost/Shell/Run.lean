import HandlerHost.Shell.Script
import HandlerHost.Shell.Utility

/-! Running scripts: expansion of words, commands, lists and the shell's own arguments. -/
namespace HandlerHost.Shell

open Child (Life)

/-- The names that the shell goes by. -/
def shellNames : List String := ["sh", "dash"]

namespace State

/-- The value of a parameter. -/
def parameter (s : State) (name : String) : Option String :=
  match name with
  | "0" => some s.self
  | "#" => some s.args.length.repr
  | "?" => some s.status.repr
  | "$" => some Utility.ownNumber
  | "PPID" => some Utility.callerNumber
  | "@" => some (String.intercalate " " s.args)
  | "*" => some (String.intercalate " " s.args)
  | name =>
    match Text.digitsValue? name.toList with
    | some n => s.args[n - 1]?
    | none => s.host.envValue? name

/-- Words separated by spaces, tabs and newlines. -/
def splitFields (text : String) : List String :=
  (text.splitToList fun c => c == ' ' || c == '\t' || c == '\n').filter fun w => !w.isEmpty

/-- What a piece stands for: a text that joins its neighbours, or fields of which only the outer
ones do. -/
def expandPiece (s : State) (p : Piece) : List String :=
  match p.fragment, p.quoted with
  | .text t, _ => [t]
  | .parameter "@", true => s.args
  | .parameter name, true => [(s.parameter name).getD ""]
  | .parameter name, false => splitFields ((s.parameter name).getD "")
  | .ifSet name t, true => [if (s.parameter name).isSome then t else ""]
  | .ifSet name t, false => splitFields (if (s.parameter name).isSome then t else "")

/-- Puts expanded pieces together. The last field comes first. -/
def joinFields (fields new : List String) : List String :=
  match fields, new with
  | fields, [] => fields
  | [], new => new.reverse
  | last :: rest, n :: more => more.reverse ++ (last ++ n) :: rest

/-- The fields of a word. An empty quotation is an empty field. -/
def expandWord (s : State) (w : Word) : List String :=
  if w.isEmpty then [""]
  else (w.foldl (fun fields p => joinFields fields (s.expandPiece p)) []).reverse

/-- A redirection sends one output where another goes, or nowhere. -/
def redirect (o : Outputs) (r : Nat × Target) : Outputs :=
  let target :=
    match r.2 with
    | .output n => if n == 2 then o.err else o.out
    | .nowhere => none
  if r.1 == 2 then { o with err := target } else { o with out := target }

/-- The status of a command that cannot be found. -/
def notFoundStatus : Nat := 127

/-- Says that a script goes wrong at a line. -/
def describe (s : State) (line : Nat) (message : String) : String :=
  s.self ++ ": " ++ line.repr ++ ": " ++ message

section

variable (shell : Utility)

/-- The utility that a name calls. A program has to be found first. -/
def utility? (s : State) (name : String) : Option Utility :=
  match Utility.builtins.lookup name with
  | some u => some u
  | none => (Interpreter.locate s.host name).bind fun path =>
    (Host.Path.parts path).getLast?.bind fun base =>
      if shellNames.contains base then some shell else Utility.programs.lookup base

/-- Calls a command, which may be one that calls the rest of its words. -/
def call (s : State) (o : Outputs) (line : Nat) : List String → State
  | [] => s.withStatus 0
  | "setsid" :: words =>
    let t := call { s with detached := true } o line words
    let sparedUntil := if o.areNowhere then s.sparedUntil else max s.sparedUntil t.overAt
    { t with detached := s.detached, sparedUntil }
  | "nice" :: words => call s o line words
  | "timeout" :: time :: words =>
    match Utility.milliseconds? time with
    | some ms => Utility.limit s ms fun s => call s o line words
    | none => s.complain o ("timeout: invalid time interval '" ++ time ++ "'") 125
  | name :: args =>
    match s.utility? shell name with
    | some u => u s o args
    | none => s.complain o (s.describe line (name ++ ": not found")) notFoundStatus

/-- Calls a command and repeats what it writes. -/
def callRepeated (s : State) (o : Outputs) (line : Nat) (times : Nat) (words : List String) :
    State :=
  let once := { s with writes := [] }.call shell o line words
  let many := once.writes.map fun w => { w with bytes := (List.replicate times w.bytes).flatten }
  { once with writes := many ++ s.writes }

/-- Where the outputs of a command go. -/
def outputsOf (s : State) (c : Simple) : Outputs := c.redirects.foldl redirect s.outputs

def runSimple (s : State) (c : Simple) : State :=
  let o := s.outputsOf c
  match c.words.flatMap s.expandWord with
  | "repeat" :: times :: name :: args =>
    s.callRepeated shell o c.line ((Text.digitsValue? times.toList).getD 0) (name :: args)
  | words => s.call shell o c.line words

/-- Goes on with a command of a list, or skips it: after `&&` it is run if the status is zero, after
`||` if it is not. Tells whether it was run. -/
def follow (p : State × Bool) (next : Connector × Simple) : State × Bool :=
  if p.1.isRunning && (p.1.status == 0) == (next.1 == .and) then (p.1.runSimple shell next.2, true)
  else (p.1, false)

/-- Runs the commands of a list. In a strict script the failure of the last one ends it. -/
def runCommands (s : State) (l : CommandList) : State :=
  let (t, ran) := l.rest.foldl (follow shell) (s.runSimple shell l.first, true)
  if t.strict && ran && t.status != 0 && t.isRunning then t.exit t.status else t

/-- Runs a list. One in the background does not delay the script, and holds the outputs open that
it has. -/
def runList (s : State) (l : CommandList) : State :=
  let t := s.runCommands shell l
  if l.background then
    let holds := !(s.outputsOf l.first).areNowhere || !l.rest.isEmpty
    { s with
      heldUntil := if holds then max s.heldUntil t.overAt else s.heldUntil
      sparedUntil := t.sparedUntil
      writes := t.writes
      company := t.company
      status := 0 }
  else t

/-- The status of a script that cannot be read. -/
def faultStatus : Nat := 2

def runStatement (s : State) (t : Statement) : State :=
  if !s.isRunning then s
  else
    match t with
    | .list l => s.runList shell l
    | .fault line message =>
      (s.complain s.outputs (s.describe line ("Syntax error: " ++ message)) faultStatus).exit
        faultStatus

def runScript (s : State) (script : String) : State :=
  (statements script).foldl (runStatement shell) s

end

end State

/-- The search path of a shell whose environment has none. -/
def defaultPath : String := "/usr/local/sbin:/usr/local/bin:/usr/sbin:/usr/bin:/sbin:/bin"

/-- The options of a shell that have no effect on a script. -/
def idleOptions : List Char := "abCEfhImuvxV".toList

/-- How a shell is called. -/
structure Invocation where
  strict : Bool
  /-- The script is the first argument itself. -/
  inline : Bool
  args : List String

/-- Reads the options of a shell; an unknown one is refused. -/
def readOptions (i : Invocation) : List String → Except Char Invocation
  | [] => .ok i
  | arg :: args =>
    if arg == "--" || arg == "-" then .ok { i with args }
    else
      match arg.toList with
      | '-' :: letters =>
        match letters.find? fun c => !("ec".toList ++ idleOptions).contains c with
        | some c => .error c
        | none =>
          readOptions
            { i with strict := i.strict || letters.contains 'e'
                     inline := i.inline || letters.contains 'c' } args
      | _ => .ok { i with args := arg :: args }

/-- Runs a script, or what else the arguments of a shell ask for. -/
def State.runArguments (shell : Utility) (s : State) (args : List String) : State :=
  let refuse (message : String) : State :=
    (s.complain s.outputs (s.self ++ ": 0: " ++ message) State.faultStatus).exit State.faultStatus
  match readOptions ⟨false, false, []⟩ args with
  | .error c => refuse ("Illegal option -" ++ String.ofList [c])
  | .ok i =>
    let s := { s with strict := i.strict }
    match i.inline, i.args with
    | true, [] => refuse "-c requires an argument"
    | true, script :: args =>
      { s with self := args.headD s.self, args := args.tail }.runScript shell script
    | false, [] => s
    | false, name :: args =>
      match s.host.read name with
      | .ok script => { s with self := name, args }.runScript shell script
      | .error .noEntry => refuse ("cannot open " ++ name ++ ": No such file")
      | .error e => refuse ("cannot open " ++ name ++ ": " ++ Utility.reason e)

/-- How a shell that was called ended, as its caller is told. -/
def State.endedStatus (s : State) : Nat :=
  match s.ended with
  | some (.code n) => n
  | some (.signal n) => 128 + n
  | _ => s.status

/-- How deep shells may call each other. -/
def shellDepth : Nat := 8

/-- The shell that a script calls, up to a depth. What it does not find it waits for. -/
def shellWithin : Nat → Utility
  | 0 => fun s _ _ => { s with stuck := true }
  | depth + 1 => fun s o args =>
    let t := { s with self := "sh", args := [], outputs := o, status := 0 }.runArguments
      (shellWithin depth) args
    { t with
      self := s.self
      args := s.args
      outputs := s.outputs
      strict := s.strict
      status := t.endedStatus
      ended := none }

/-- Runs a shell with its arguments. -/
def run (host : Host) (program : String) (args : List String) : Life :=
  let env := if (host.envValue? "PATH").isNone then host.env.insert "PATH" defaultPath else host.env
  let env := env.insert "PWD" ("/" ++ String.intercalate "/" host.cwd)
  ((State.start { host with env } program []).runArguments (shellWithin shellDepth) args).life

end HandlerHost.Shell
