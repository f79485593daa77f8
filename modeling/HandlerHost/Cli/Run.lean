import HandlerHost.Cli.Arguments
import HandlerHost.Invoker.Call

/-!
Carrying out a command line on a host. The configuration is read first, whatever the command. A
reply goes to standard output, a failure to standard error.
-/
namespace HandlerHost.Cli

open Invoker (Pool)

/-- What a command leaves behind. -/
structure Outcome where
  host : Host
  exitCode : Nat
  stdout : String
  /-- What went wrong, without the causes. -/
  failure : Option String

namespace Outcome

def success (h : Host) (stdout : String) : Outcome := ⟨h, 0, stdout, none⟩

def fail (h : Host) (message : String) : Outcome := ⟨h, 1, "", some message⟩

/-- The status of a command line that makes no sense. -/
def usage (h : Host) : Outcome := ⟨h, 2, "", none⟩

/-- The status of a program that breaks down. -/
def crash (h : Host) : Outcome := ⟨h, 101, "", none⟩

end Outcome

def alreadyExists (path : String) : String :=
  "Configuration file already exists at '" ++ path ++ "'. Use --force to overwrite."

/-- Writes the example configuration. -/
def createConfig (h : Host) (output : String) (force : Bool) : Outcome :=
  if h.files.pathExists h.cwd output && !force then .fail h (alreadyExists output)
  else
    match h.files.write h.cwd output Config.exampleText with
    | .ok files =>
      .success { h with files } ("Created configuration file at '" ++ output ++ "'\n")
    | .error _ => .fail h "failed to write configuration file"

/-- A text read as a value, or why not. -/
def readEvent (h : Host) : Option EventSource → Except String Json.Value
  | none => .ok .emptyObject
  | some (.inline text) => (Json.Value.read text).mapError fun _ => "event is not valid JSON"
  | some (.file path) =>
    match h.read path with
    | .error _ => .error "failed to read event file"
    | .ok text => (Json.Value.read text).mapError fun _ => "event file is not valid JSON"

def readSource (h : Host) (path : String) : Except String String :=
  (h.read path).mapError fun _ => "failed to read source file"

/-- The payload of a request in a file or on standard input. -/
def readRequest (h : Host) (file : Option String) (stdin : String) : Except String Payload := do
  let text ←
    match file with
    | none => pure stdin
    | some path => (h.read path).mapError fun _ => "failed to read request file"
  (Json.decode Payload.decoder text).mapError fun _ =>
    "request is not a valid invocation payload"

/-- Makes a call and prints the reply. An interrupt cancels the call. -/
def runPayload (h : Host) (c : Config) (payload : Payload) (id : WorkspaceId)
    (interruptAt : Option Nat := none) : Outcome :=
  match Pool.ofConfig? c h with
  | none => .crash h
  | some p =>
    match p.together [⟨payload, id, interruptAt, none⟩] with
    | (p, [answer]) =>
      let reply := answer.reply?.getD (.refusal "")
      ⟨p.host, if reply.ok then 0 else 1, reply.toValue.pretty ++ "\n", none⟩
    | (p, _) => .crash p.host

/-- The command that an interpreter is called with. -/
def interpreterText (h : Host) (c : Config) (l : Language) : String :=
  match Interpreter.resolve h l (c.commandFor l) with
  | .ok i => String.intercalate " " (i.program :: i.args)
  | .error e => "unavailable (" ++ e.text ++ ")"

def runtimesText (h : Host) (c : Config) : String :=
  "Available runtimes:\n\n" ++ String.join (Language.all.map fun l =>
    "  " ++ padRight l.id 12 ++ " ." ++ padRight l.extension 4 ++ " " ++ interpreterText h c l ++
      "\n")

/-- The configuration in effect. -/
def configText (h : Host) (c : Config) : String :=
  let overrides := c.interpreters.entries
  "Workspace root: " ++ c.resolvedRoot h ++ "\n\n" ++
    "Default timeout: " ++ toString c.defaultTimeoutMs ++ " ms\n" ++
    "Max timeout: " ++ toString c.maxTimeoutMs ++ " ms\n" ++
    "Max concurrent invocations: " ++ toString c.maxConcurrent ++ "\n" ++
    "Max log lines: " ++ toString c.maxLogLines ++ "\n" ++
    "Isolation: " ++ c.isolation.display ++ "\n\n" ++
    "Interpreter overrides: " ++ toString overrides.length ++ "\n" ++
    String.join (overrides.map fun (id, command) =>
      "  " ++ padRight id 12 ++ " " ++ String.intercalate " " command ++ "\n")

/-- The payload that a source file and options make. -/
def buildPayload (h : Host) (source runtime : String) (event : Option EventSource)
    (handler : Option String) (timeoutMs : Option UInt64) : Except String Payload := do
  let code ← readSource h source
  let event ← readEvent h event
  return { Payload.ofCode runtime code with event, handler, timeoutMs }

def perform (h : Host) (c : Config) (stdin : String) (id : WorkspaceId) : Action → Outcome
  | .init output force => createConfig h output force
  | .invoke source runtime event handler timeoutMs =>
    match buildPayload h source runtime event handler timeoutMs with
    | .error message => .fail h message
    | .ok payload => runPayload h c payload id
  | .request file =>
    match readRequest h file stdin with
    | .error message => .fail h message
    | .ok payload => runPayload h c payload id
  | .runtimes => .success h (runtimesText h c)
  | .showConfig => .success h (configText h c)

/-- Carries out a command line. A workspace gets the identifier if one is needed. -/
def run (h : Host) (args : List String) (stdin : String) (id : WorkspaceId) : Outcome :=
  match CommandLine.ofArguments args with
  | .error .usage => .usage h
  | .error (.help none) => .success h helpText
  | .error (.help (some f)) => .success h f.helpText
  | .error .version => .success h (programName ++ " " ++ version ++ "\n")
  | .ok line =>
    match Config.load h line.config with
    | .error _ => .fail h "failed to load configuration"
    | .ok c => perform h c stdin id line.action

end HandlerHost.Cli
