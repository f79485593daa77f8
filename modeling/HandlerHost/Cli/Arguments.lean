import HandlerHost.Cli.Form

/-!
Reading arguments. Options may be short or long, in clusters, with their values joined or after
them; a value that begins with a hyphen has to be joined. Each option is given once at most, though
one of every command may stand before the command and after it; then the later one counts.

Arguments are taken one by one, and the first that is wrong or asks for help decides. A value that
was not joined, and a plain argument, are checked when the next option or plain argument of the
same part comes, or at the end.
-/
namespace HandlerHost.Cli

/-- Why no command is carried out. -/
inductive Stop
  | usage
  | help (f : Option Form)
  | version
deriving DecidableEq

abbrev Values := List (String × String)

/-- An argument that has yet to be checked. -/
inductive Pending
  /-- An option whose value comes next. -/
  | wanting (s : Switch)
  | option (s : Switch) (value : String)
  | operand (value : String)
deriving DecidableEq

/-- The arguments before the command, or those after it. -/
structure Part where
  values : Values
  operand : Option String
  pending : Option Pending

namespace Part

def empty : Part := ⟨[], none, none⟩

def get? (p : Part) (s : Switch) : Option String := p.values.lookup s.name

/-- Takes an option whose value fits. -/
def add (p : Part) (s : Switch) (value : String) : Except Stop Part :=
  if s.kind.accepts value && (p.get? s).isNone then
    .ok { p with values := (s.name, value) :: p.values }
  else .error .usage

/-- Takes a plain argument, which is a path. -/
def addOperand (p : Part) (value : String) : Except Stop Part :=
  if value.isEmpty then .error .usage else .ok { p with operand := some value }

/-- Checks what is pending. -/
def settle (p : Part) : Except Stop Part :=
  let q := { p with pending := none }
  match p.pending with
  | none => .ok q
  | some (.wanting _) => .error .usage
  | some (.option s value) => q.add s value
  | some (.operand value) => q.addOperand value

def settleThen (p : Part) (next : Pending) : Except Stop Part := do
  return { ← p.settle with pending := some next }

/-- An option without a value of its own. -/
def addFlag (f : Option Form) (p : Part) (s : Switch) : Except Stop Part := do
  let p ← p.settle
  if s == .help then throw (.help f)
  else if s == .printVersion then throw .version
  else p.add s ""

/-- An option that is joined with its value. -/
def addJoined (p : Part) (s : Switch) (value : String) : Except Stop Part := do
  (← p.settle).add s value

/-- An option, which wants its value next if it takes one. -/
def addAlone (f : Option Form) (p : Part) (s : Switch) : Except Stop Part :=
  if s.value.isSome then p.settleThen (.wanting s) else p.addFlag f s

/-- The options that may be given before the command, or to it. -/
def known : Option Form → List Switch
  | none => Switch.everywhere ++ [.help, .printVersion]
  | some f => f.switches ++ Switch.everywhere ++ [.help]

def dropEquals : List Char → List Char
  | '=' :: cs => cs
  | cs => cs

/-- The letters after a hyphen. What follows an option with a value is its value. -/
def cluster (f : Option Form) (p : Part) : List Char → Except Stop Part
  | [] => .ok p
  | c :: cs =>
    match (known f).find? fun s => s.short == some c with
    | none => .error .usage
    | some s =>
      if s.value.isSome && !cs.isEmpty then p.addJoined s (String.ofList (dropEquals cs))
      else
        match p.addAlone f s with
        | .error e => .error e
        | .ok p => p.cluster f cs

/-- A name after two hyphens, perhaps with a value after an equals sign. -/
def long (f : Option Form) (p : Part) (cs : List Char) : Except Stop Part :=
  let name := String.ofList (cs.takeWhile (· != '='))
  match (known f).find? (fun s => s.name == name), cs.dropWhile (· != '=') with
  | none, _ => .error .usage
  | some s, [] => p.addAlone f s
  | some s, _ :: value =>
    if s.value.isSome then p.addJoined s (String.ofList value) else .error .usage

def option (f : Option Form) (p : Part) (arg : String) : Except Stop Part :=
  match arg.toList with
  | '-' :: '-' :: cs => p.long f cs
  | _ :: cs => p.cluster f cs
  | [] => .error .usage

/-- A plain argument of a command that takes one. -/
def plain (f : Form) (p : Part) (arg : String) : Except Stop Part := do
  let p ← p.settle
  if f.operand.isSome && p.operand.isNone then return { p with pending := some (.operand arg) }
  else throw .usage

end Part

/-- What has been read so far. -/
structure Reader where
  before : Part
  /-- The command, if it has been named. -/
  form : Option Form
  after : Part
  /-- What follows a command that takes plain arguments only. -/
  names : List String
  /-- Only plain arguments are left. -/
  plain : Bool

namespace Reader

def start : Reader := ⟨.empty, none, .empty, [], false⟩

def part (r : Reader) : Part := if r.form.isNone then r.before else r.after

def setPart (r : Reader) (p : Part) : Reader :=
  if r.form.isNone then { r with before := p } else { r with after := p }

/-- A plain argument names the command or is handed to it. -/
def operand (r : Reader) (arg : String) : Except Stop Reader :=
  match r.form with
  | some f => (r.after.plain f arg).map r.setPart
  | none =>
    match Form.ofName? arg with
    | some f => if r.plain then .error .usage else .ok { r with form := some f }
    | none => .error .usage

/-- An argument that begins like an option; a hyphen alone does not. -/
def isOption (arg : String) : Bool := arg.startsWith "-" && arg != "-"

def push (r : Reader) (arg : String) : Except Stop Reader :=
  if r.form.any Form.plain then .ok { r with names := r.names ++ [arg] }
  else if r.plain then r.operand arg
  else if arg == "--" then .ok { r with plain := true }
  else if isOption arg then (r.part.option r.form arg).map r.setPart
  else
    match r.part.pending with
    | some (.wanting s) => .ok (r.setPart { r.part with pending := some (.option s arg) })
    | _ => r.operand arg

end Reader

inductive EventSource
  | inline (text : String)
  | file (path : String)
deriving DecidableEq

inductive Action
  | init (output : String) (force : Bool)
  | invoke (source runtime : String) (event : Option EventSource) (handler : Option String)
      (timeoutMs : Option UInt64)
  | request (file : Option String)
  | runtimes
  | showConfig
deriving DecidableEq

/-- A command line that makes sense. -/
structure CommandLine where
  config : Option String
  action : Action
deriving DecidableEq

/-- Where a new configuration is written. -/
def defaultOutput : String := "funcbox.toml"

namespace Part

/-- The event, which is given in at most one way. -/
def event? (p : Part) : Except Stop (Option EventSource) :=
  match p.get? .event, p.get? .eventFile with
  | some _, some _ => .error .usage
  | some text, none => .ok (some (.inline text))
  | none, some path => .ok (some (.file path))
  | none, none => .ok none

/-- An invocation needs a source and a runtime. -/
def invocation (p : Part) : Except Stop Action :=
  match p.operand, p.get? .runtime with
  | some source, some runtime => do
    return .invoke source runtime (← p.event?) (p.get? .handler)
      ((p.get? .timeout).bind ValueKind.wordOf?)
  | _, _ => .error .usage

/-- The action of a command with its arguments. -/
def action (p : Part) (f : Form) : Except Stop Action :=
  if f == .init then
    .ok (.init ((p.get? .output).getD defaultOutput) (p.get? .force).isSome)
  else if f == .invoke then p.invocation
  else if f == .request then .ok (.request p.operand)
  else if f == .runtimes then .ok .runtimes
  else if f == .showConfig then .ok .showConfig
  else .error .usage

end Part

/-- The help that some names ask for. -/
def helpFor : List String → Stop
  | [] => .help none
  | [name] =>
    match Form.ofName? name with
    | some f => .help (some f)
    | none => .usage
  | _ => .usage

/-- What a command line asks for. -/
def CommandLine.ofArguments (args : List String) : Except Stop CommandLine := do
  let r ← args.foldlM Reader.push .start
  match r.form with
  | none => throw .usage
  | some f =>
    if f.plain then throw (helpFor r.names)
    let after ← r.after.settle
    let action ← after.action f
    let before ← r.before.settle
    return ⟨(after.get? .config).or (before.get? .config), action⟩

end HandlerHost.Cli
