import HandlerHost.Host.Basic
import HandlerHost.Child.Schedule

/-! The state of a running command. Commands take no time unless they wait. -/
namespace HandlerHost.Shell

open Child (Aside Exit Flood Life Stream Write)

/-- Where the two outputs of a command go, if anywhere. -/
structure Outputs where
  out : Option Stream
  err : Option Stream

def Outputs.usual : Outputs := ⟨some .stdout, some .stderr⟩

def Outputs.areNowhere (o : Outputs) : Bool := o.out.isNone && o.err.isNone

/-- How a process is scheduled. -/
structure Footing where
  /-- It runs only while no other process wants its processor. -/
  idle : Bool
  /-- The one processor that it may use. -/
  processor : Option Nat

def Footing.usual : Footing := ⟨false, none⟩

/-- A process leaves another no time: they share a processor, and the other is idle. -/
def Footing.starves (f g : Footing) : Bool :=
  g.idle && !f.idle && g.processor.isSome && f.processor == g.processor

/-- What is written and what else happens is kept with the last first. -/
structure State where
  host : Host
  /-- The name that the command was called by. -/
  self : String
  args : List String
  outputs : Outputs
  footing : Footing
  /-- The footing of the process that reads the output. -/
  caller : Footing
  /-- The command runs in a session of its own, which is not killed with its caller. -/
  detached : Bool
  /-- A command that fails ends the script. -/
  strict : Bool
  now : Nat
  /-- Until then somebody in the background holds the output open. -/
  heldUntil : Nat
  /-- Until then a session of its own holds it open. -/
  sparedUntil : Nat
  status : Nat
  writes : List Write
  company : List (Nat × Aside)
  ended : Option Exit
  /-- Waits for something that never comes. -/
  stuck : Bool

namespace State

/-- The time a command takes to start, in milliseconds. -/
def startTime : Nat := 2

/-- A time that no one lives to see. -/
def never : Nat := UInt64.size

def start (host : Host) (self : String) (args : List String) : State :=
  ⟨host, self, args, .usual, .usual, .usual, false, false, startTime, 0, 0, 0, [], [], none, false⟩

def isRunning (s : State) : Bool := s.ended.isNone && !s.stuck

def happen (s : State) (a : Aside) : State := { s with company := (s.now, a) :: s.company }

def write (s : State) (target : Option Stream) (bytes : List UInt8) : State :=
  match target, bytes with
  | none, _ => s
  | _, [] => s
  | some stream, bytes =>
    if s.detached then s.happen (.write stream bytes)
    else { s with writes := ⟨s.now, stream, bytes⟩ :: s.writes }

def say (s : State) (target : Option Stream) (text : String) : State :=
  s.write target (Text.Utf8.encode text)

def withStatus (s : State) (n : Nat) : State := { s with status := n }

/-- A command complains and fails. -/
def complain (s : State) (o : Outputs) (message : String) (status : Nat) : State :=
  (s.say o.err (message ++ "\n")).withStatus status

def exit (s : State) (n : Nat) : State := { s with ended := some (.code (n % 256)), status := n }

/-- Time passes, in milliseconds. -/
def pass (s : State) (ms : Nat) : State := { s with now := s.now + ms }

/-- When a run is over, with all that it leaves in the background. -/
def overAt (s : State) : Nat := if s.stuck then never else max s.now s.heldUntil

/-- The floods that are going on. -/
def floods (s : State) : List Flood :=
  s.company.foldr (fun a fs =>
    match a.2 with
    | .swell f => f :: fs
    | .ebb f => fs.erase f
    | _ => fs) []

/-- The floods that are going on end at some time. -/
def subside (s : State) (time : Nat) : State :=
  { s with company := s.floods.map (fun f => (time, .ebb f)) ++ s.company }

/-- The life that a finished run amounts to. -/
def life (s : State) : Life :=
  let writes := s.writes.reverse.mergeSort fun a b => decide (a.time ≤ b.time)
  let company := (s.subside never).company.reverse.mergeSort fun a b => decide (a.1 ≤ b.1)
  let release := if s.sparedUntil = 0 then [] else [(s.sparedUntil, Aside.release)]
  let ending := if s.stuck then none else some (s.now, s.ended.getD (.code (s.status % 256)))
  ⟨writes, ending, s.heldUntil, company ++ release⟩

end State

end HandlerHost.Shell
