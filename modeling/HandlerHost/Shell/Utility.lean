import HandlerHost.Interpreter
import HandlerHost.Shell.Escape
import HandlerHost.Shell.State
import HandlerHost.Text.Natural

/-! The utilities that scripts call. -/
namespace HandlerHost.Shell

abbrev Utility := State → Outputs → List String → State

namespace Utility

def succeed (s : State) : State := s.withStatus 0

def echo (s : State) (o : Outputs) (args : List String) : State :=
  let bytes (args : List String) := Escape.read .argument (String.intercalate " " args)
  match args with
  | "-n" :: args => succeed (s.write o.out (bytes args))
  | args => succeed (s.write o.out (bytes args ++ [10]))

/-- As `echo`, but a backslash stands for itself. -/
def plainEcho (s : State) (o : Outputs) (args : List String) : State :=
  match args with
  | "-n" :: args => succeed (s.say o.out (String.intercalate " " args))
  | args => succeed (s.say o.out (String.intercalate " " args ++ "\n"))

inductive Directive
  | literal (bytes : List UInt8)
  | string
  | escaped

/-- The directives of a format. The characters since the last one are kept with the last first. -/
def directives (run : List Char) : List Char → List Directive
  | [] => [.literal (Escape.read .format (String.ofList run.reverse))]
  | '%' :: 's' :: cs =>
    .literal (Escape.read .format (String.ofList run.reverse)) :: .string :: directives [] cs
  | '%' :: 'b' :: cs =>
    .literal (Escape.read .format (String.ofList run.reverse)) :: .escaped :: directives [] cs
  | '%' :: '%' :: cs => directives ('%' :: run) cs
  | c :: cs => directives (c :: run) cs

def Directive.bytes (d : Directive) (arg : String) : List UInt8 :=
  match d with
  | literal bs => bs
  | string => Text.Utf8.encode arg
  | escaped => Escape.read .argument arg

def Directive.takesArgument : Directive → Bool
  | literal _ => false
  | _ => true

/-- One use of a format, and the arguments it leaves. A missing argument is empty. -/
def formatOnce : List Directive → List String → List UInt8 × List String
  | [], args => ([], args)
  | d :: ds, args =>
    if d.takesArgument then
      let (bs, rest) := formatOnce ds args.tail
      (d.bytes (args.headD "") ++ bs, rest)
    else
      let (bs, rest) := formatOnce ds args
      (d.bytes "" ++ bs, rest)

/-- A format is used again until no argument is left; every use takes at least one. -/
def format (ds : List Directive) : Nat → List String → List UInt8
  | 0, _ => []
  | uses + 1, args =>
    let (bs, rest) := formatOnce ds args
    if rest.isEmpty || !ds.any Directive.takesArgument then bs else bs ++ format ds uses rest

def printf (s : State) (o : Outputs) : List String → State
  | [] => s.complain o (s.self ++ ": printf: usage: printf format [arg ...]") 2
  | f :: args => succeed (s.write o.out (format (directives [] f.toList) (args.length + 1) args))

def exit (s : State) (o : Outputs) : List String → State
  | [] => s.exit s.status
  | n :: _ =>
    match Text.digitsValue? n.toList with
    | some n => s.exit n
    | none => (s.complain o (s.self ++ ": exit: Illegal number: " ++ n) 2).exit 2

/-- The number that a script knows its own process by. -/
def ownNumber : String := "4242"

/-- The number that it knows its caller by. -/
def callerNumber : String := "4241"

/-- Signals that a process ignores unless it asks for them. -/
def ignoredSignals : List Nat := [0, 17, 18, 23, 28]

/-- Signals that stop a process without ending it. -/
def stopSignals : List Nat := [19, 20, 21, 22]

def receiveSignal (s : State) (n : Nat) : State :=
  if ignoredSignals.contains n then succeed s
  else if stopSignals.contains n then { s with stuck := true }
  else { s with ended := some (.signal n) }

def kill (s : State) (o : Outputs) (args : List String) : State :=
  let send (n : Nat) (target : String) : State :=
    if target == ownNumber then receiveSignal s n
    else s.complain o (s.self ++ ": kill: No such process") 1
  match args with
  | [target] => send 15 target
  | [signal, target] =>
    match signal.toList with
    | '-' :: ds =>
      match Text.digitsValue? ds with
      | some n => send n target
      | none => s.complain o (s.self ++ ": kill: Illegal option " ++ signal) 2
    | _ => s.complain o (s.self ++ ": kill: No such process") 1
  | _ => s.complain o (s.self ++ ": kill: Usage: kill [-s sigspec] pid") 2

/-- A number of seconds with at most three places that count, in milliseconds. -/
def milliseconds? (text : String) : Option Nat :=
  match text.splitOn "." with
  | [whole] => (Text.digitsValue? whole.toList).map (· * 1000)
  | [whole, places] => do
    let n ← if whole.isEmpty then some 0 else Text.digitsValue? whole.toList
    let m ← Text.digitsValue? ((places.toList ++ ['0', '0', '0']).take 3)
    return n * 1000 + m
  | _ => none

/-- Writes a line over and over. Where it starves its caller that is a flood; else its lines are
read as they come, and as nobody can say how many there are they are not counted. -/
def yes (s : State) (o : Outputs) (args : List String) : State :=
  let text := if args.isEmpty then "y" else String.intercalate " " args
  let s := { s with stuck := true }
  match o.out with
  | some stream =>
    if s.footing.starves s.caller then s.happen (.swell ⟨stream, text, s.detached⟩) else s
  | none => s

/-- Changes how a process is scheduled, by its number. -/
def reschedule (s : State) (o : Outputs) (number : String) (f : Footing → Footing) : State :=
  if number == ownNumber then succeed { s with footing := f s.footing }
  else if number == callerNumber then succeed { s with caller := f s.caller }
  else s.complain o "failed to set pid's scheduling: No such process" 1

/-- Makes a process idle. -/
def chrt (s : State) (o : Outputs) : List String → State
  | ["-i", "-p", _, number] => reschedule s o number fun f => { f with idle := true }
  | _ => s.complain o "chrt: bad usage" 1

/-- Binds a process to a processor. What it was bound to before nobody knows, so that is not
printed. -/
def taskset (s : State) (o : Outputs) : List String → State
  | ["-cp", processor, number] =>
    match Text.digitsValue? processor.toList with
    | some n => reschedule s o number fun f => { f with processor := some n }
    | none => s.complain o ("taskset: failed to parse CPU list: " ++ processor) 1
  | _ => s.complain o "taskset: bad usage" 1

/-- The status of a command that took too long. -/
def overtimeStatus : Nat := 124

/-- Runs a command for so many milliseconds at most. -/
def limit (s : State) (ms : Nat) (run : State → State) : State :=
  let time := s.now + ms
  let t := run { s with writes := [], company := [] }
  let t :=
    if t.stuck || decide (time < t.now) then
      { t with
        now := time
        writes := t.writes.filter fun w => w.time ≤ time
        company := t.company.filter fun a => a.1 ≤ time
        ended := none
        stuck := s.stuck }.subside time |>.withStatus overtimeStatus
    else t
  { t with writes := t.writes ++ s.writes, company := t.company ++ s.company }

def sleep (s : State) (o : Outputs) : List String → State
  | [] => s.complain o "sleep: missing operand" 1
  | "infinity" :: _ => { s with stuck := true }
  | text :: _ =>
    match milliseconds? text with
    | some ms => succeed (s.pass ms)
    | none => s.complain o ("sleep: invalid time interval '" ++ text ++ "'") 1

/-- The reason of a failure in the words of the system, without its number. -/
def reason (e : Host.Errno) : String := (e.text.splitOn " (os error").headD ""

def catFile (o : Outputs) (s : State) (name : String) : State :=
  if name == "-" then s
  else
    match s.host.read name with
    | .ok text => s.say o.out text
    | .error e => s.complain o ("cat: " ++ name ++ ": " ++ reason e) 1

/-- Nothing comes from standard input. -/
def cat (s : State) (o : Outputs) (args : List String) : State :=
  args.foldl (catFile o) (succeed s)

def isHiddenName (name : String) : Bool := name.startsWith "."

def ls (s : State) (o : Outputs) (args : List String) : State :=
  let dir := args.headD "."
  let names (ns : List String) : String := String.join (ns.map (· ++ "\n"))
  match s.host.files.stat s.host.cwd dir with
  | .ok (p, .directory) =>
    succeed (s.say o.out (names ((s.host.files.list p).filter fun n => !isHiddenName n)))
  | .ok _ => succeed (s.say o.out (names [dir]))
  | .error e => s.complain o ("ls: cannot access '" ++ dir ++ "': " ++ reason e) 2

def pwd (s : State) (o : Outputs) (_ : List String) : State :=
  succeed (s.say o.out ("/" ++ String.intercalate "/" s.host.cwd ++ "\n"))

/-- Waits for what runs in the background. -/
def wait (s : State) (_ : Outputs) (_ : List String) : State :=
  succeed { s with now := max s.now s.heldUntil }

def integer? (text : String) : Option Int :=
  match text.toList with
  | '-' :: ds => (Text.digitsValue? ds).map fun n => -(n : Int)
  | ds => (Text.digitsValue? ds).map fun n => (n : Int)

/-- A condition; what is no condition is a misuse. -/
def condition : List String → Option Bool
  | [] => some false
  | [a] => some (!a.isEmpty)
  | ["-n", a] => some (!a.isEmpty)
  | ["-z", a] => some a.isEmpty
  | ["!", a] => some a.isEmpty
  | [a, "=", b] => some (a == b)
  | [a, "!=", b] => some (a != b)
  | [a, op, b] => do
    let x ← integer? a
    let y ← integer? b
    match op with
    | "-eq" => some (x == y)
    | "-ne" => some (x != y)
    | "-lt" => some (decide (x < y))
    | "-le" => some (decide (x ≤ y))
    | "-gt" => some (decide (y < x))
    | "-ge" => some (decide (y ≤ x))
    | _ => none
  | _ => none

def test (s : State) (o : Outputs) (args : List String) : State :=
  match condition args with
  | some b => s.withStatus (if b then 0 else 1)
  | none => s.complain o (s.self ++ ": test: unexpected operator") 2

/-- A condition between brackets. -/
def bracket (s : State) (o : Outputs) (args : List String) : State :=
  if args.getLast? == some "]" then test s o args.dropLast
  else s.complain o (s.self ++ ": [: missing ]") 2

/-- The numbers from one to another, each in a form. -/
def sequence (form : Nat → List UInt8) (first count : Nat) : List UInt8 :=
  ((List.range count).map fun i => form (first + i) ++ [10]).flatten

/-- Writes numbers, one a line; a form has a place for the number. -/
def seq (s : State) (o : Outputs) (args : List String) : State :=
  let run (form : Nat → List UInt8) (first last : String) : State :=
    match Text.digitsValue? first.toList, integer? last with
    | some m, some n => succeed (s.write o.out (sequence form m (n + 1 - m).toNat))
    | _, _ => s.complain o "seq: invalid argument" 1
  let digits (i : Nat) : List UInt8 := Text.Utf8.encode i.repr
  match args with
  | ["-f", form, first, last] =>
    match form.splitOn "%.0f" with
    | [before, after] =>
      let text (t : String) : List UInt8 := Text.Utf8.encode (t.replace "%%" "%")
      run (fun i => text before ++ digits i ++ text after) first last
    | _ => s.complain o ("seq: format '" ++ form ++ "' is no form for a number") 1
  | [first, last] => run digits first last
  | [last] => run digits "1" last
  | _ => s.complain o "seq: missing operand" 1

/-- The utilities that a shell has in itself, and others that are found wherever it is. -/
def builtins : List (String × Utility) := [
  ("echo", echo), ("printf", printf), ("exit", exit), ("kill", kill), ("pwd", pwd),
  ("wait", wait), ("test", test), ("[", bracket), ("seq", seq), ("yes", yes),
  ("chrt", chrt), ("taskset", taskset),
  ("true", fun s _ _ => succeed s), (":", fun s _ _ => succeed s),
  ("false", fun s _ _ => s.withStatus 1), ("read", fun s _ _ => s.withStatus 1)]

/-- The utilities that are programs of their own. -/
def programs : List (String × Utility) := [
  ("cat", cat), ("echo", plainEcho), ("ls", ls), ("pwd", pwd), ("sleep", sleep),
  ("printf", printf), ("true", fun s _ _ => succeed s), ("false", fun s _ _ => s.withStatus 1)]

end Utility

end HandlerHost.Shell
