import HandlerHost.Output.Frame
import HandlerHost.Child.Termination

/-!
Watching a process. Things happen around it at any time; each poll takes the most urgent thing
that has happened. Cancellation comes before the deadline, the deadline before output, and output
before the end of the process. When watching ends the process group is killed, once, and what is
left of the output is collected until it ends or a grace period is over.
-/
namespace HandlerHost.Child

open Output (Line)

/-- What happens around a process. -/
inductive Event
  | line (l : Line)
  /-- Both output streams have ended. -/
  | closed
  | exited (e : Exit)
  | cancelled
  | deadline
  | graceOver
deriving DecidableEq

/-- What has happened and has not been taken. Cancellation, the deadline and the grace period stay
once they have come. -/
structure Sources where
  queue : List Line
  closed : Bool
  exit : Option Exit
  cancelled : Bool
  due : Bool
  graceOver : Bool
deriving DecidableEq

namespace Sources

def quiet : Sources := ⟨[], false, none, false, false, false⟩

/-- Streams that have ended bring no more lines, and a process ends once. -/
def happen (s : Sources) : Event → Sources
  | .line l => if s.closed then s else { s with queue := s.queue ++ [l] }
  | .closed => { s with closed := true }
  | .exited e => { s with exit := s.exit.or (some e) }
  | .cancelled => { s with cancelled := true }
  | .deadline => { s with due := true }
  | .graceOver => { s with graceOver := true }

end Sources

/-- What the output has for its reader. -/
inductive Received
  | line (l : Line)
  | closed
  | pending
deriving DecidableEq

inductive Phase
  | watching
  /-- The group has been killed; the process has to be waited for. -/
  | killing (t : Termination)
  | draining (t : Termination)
  | over (t : Termination)
deriving DecidableEq

/-- A process and those who watch it. Lines are kept with the last one first. -/
structure Supervisor where
  sources : Sources
  streamsOpen : Bool
  exit : Option Exit
  taken : List Line
  phase : Phase
  /-- The process group has been killed. -/
  killed : Bool
  /-- How often the kill signal was sent. -/
  signals : Nat
deriving DecidableEq

namespace Supervisor

/-- A process that has just been started. -/
def start : Supervisor := ⟨.quiet, true, none, [], .watching, false, 0⟩

def happen (s : Supervisor) (e : Event) : Supervisor := { s with sources := s.sources.happen e }

/-- The lines delivered so far, in order. -/
def delivered (s : Supervisor) : List Line := s.taken.reverse

def isWatching (s : Supervisor) : Bool := s.phase == .watching

def termination? (s : Supervisor) : Option Termination :=
  match s.phase with
  | .over t => some t
  | _ => none

/-- Takes the next thing from the output. -/
def receive (s : Supervisor) : Received × Supervisor :=
  match s.sources.queue with
  | l :: rest =>
    (.line l, { s with sources := { s.sources with queue := rest }, taken := l :: s.taken })
  | [] => (if s.sources.closed then .closed else .pending, s)

/-- Kills the process group unless that has been done. -/
def signalGroup (s : Supervisor) : Supervisor :=
  if s.killed then s else { s with killed := true, signals := s.signals + 1 }

def stop (s : Supervisor) (t : Termination) : Supervisor :=
  { s.signalGroup with phase := .killing t }

/-- Watching ends once the process and its output have ended. -/
def settle (s : Supervisor) : Supervisor :=
  match s.streamsOpen, s.exit with
  | false, some e => s.stop (.exited e)
  | _, _ => s

/-- How watching ends at the deadline. -/
def atDeadline (s : Supervisor) : Termination :=
  match s.exit with
  | some e => .exitedPastDeadline e
  | none => .timedOut

/-- Takes the end of the process, if it has come and is not known. -/
def observeExit (s : Supervisor) : Supervisor := { s with exit := s.exit.or s.sources.exit }

/-- One poll while watching. -/
def watch (s : Supervisor) : Supervisor :=
  if s.sources.cancelled then s.stop .cancelled
  else if s.sources.due then s.stop s.atDeadline
  else if s.streamsOpen then
    match s.receive with
    | (.line _, s) => s
    | (.closed, s) => { s with streamsOpen := false }.settle
    | (.pending, s) => s.observeExit.settle
  else s.observeExit.settle

/-- The process has ended after its kill. A grace period begins unless all output has been
delivered. -/
def reap (s : Supervisor) (t : Termination) : Supervisor :=
  match s.exit.or s.sources.exit, t with
  | none, _ => s
  | some _, .exited _ => { s with phase := .over t }
  | some _, _ =>
    { s with phase := .draining t, sources := { s.sources with graceOver := false } }

/-- One poll after the kill. Output comes before the end of the grace period. -/
def drain (s : Supervisor) (t : Termination) : Supervisor :=
  match s.receive with
  | (.line _, s) => s
  | (.closed, s) => { s with phase := .over t }
  | (.pending, s) => if s.sources.graceOver then { s with phase := .over t } else s

def poll (s : Supervisor) : Supervisor :=
  match s.phase with
  | .watching => s.watch
  | .killing t => s.reap t
  | .draining t => s.drain t
  | .over _ => s

/-- Letting go of a process kills its group. -/
def drop (s : Supervisor) : Supervisor := s.signalGroup

/-- Something happens, or the supervisor looks. -/
inductive Tick
  | happen (e : Event)
  | poll
deriving DecidableEq

def tick (s : Supervisor) : Tick → Supervisor
  | .happen e => s.happen e
  | .poll => s.poll

/-- What a schedule makes of a supervisor. -/
def run (s : Supervisor) (ticks : List Tick) : Supervisor := ticks.foldl tick s

end Supervisor

end HandlerHost.Child
