import HandlerHost.Output.Lines
import HandlerHost.Child.Supervisor

/-!
What becomes of a process that is watched. A process left alone has a life on a clock that starts
with it; its caller sets terms. Both together are a schedule for the supervisor.
-/
namespace HandlerHost.Child

open Output (Line OpenLine RawLine maxLineBytes)

inductive Stream
  | stdout
  | stderr
deriving DecidableEq, Inhabited

/-- A line of the stream. -/
def Stream.line : Stream → String → Line
  | .stdout => .stdout
  | .stderr => .stderr

/-- Bytes written some milliseconds after the start. -/
structure Write where
  time : Nat
  stream : Stream
  bytes : List UInt8
deriving DecidableEq

/-- A line that is written over and over, faster than it can be read. A kill spares a writer in a
session of its own. -/
structure Flood where
  stream : Stream
  text : String
  spared : Bool
deriving DecidableEq

/-- What goes on beside a process. -/
inductive Aside
  /-- A session of its own writes. -/
  | write (s : Stream) (bytes : List UInt8)
  | swell (f : Flood)
  | ebb (f : Flood)
  /-- The last session of its own lets go of the output. -/
  | release
deriving DecidableEq

inductive Deed
  | write (s : Stream) (bytes : List UInt8)
  | aside (a : Aside)
  | exit (e : Exit)
  | close
  | deadline
  | cancel
  | abort
  | graceOver
deriving DecidableEq

structure Moment where
  time : Nat
  deed : Deed
deriving DecidableEq

/-- The life of a process that nobody interferes with: what it writes, in order of time, when and
how it ends, until when its descendants hold the output open, and what else they do, in order of
time. -/
structure Life where
  writes : List Write
  ending : Option (Nat × Exit)
  heldUntil : Nat
  company : List (Nat × Aside)
deriving DecidableEq

/-- The terms of the caller, in milliseconds after the start. -/
structure Terms where
  deadline : Nat
  cancelAt : Option Nat
  /-- The caller goes away without cancelling. -/
  abortAt : Option Nat
  /-- A line on which the caller cancels. -/
  cancelOn : Line → Bool

/-- Puts a moment before those that are not earlier. -/
def Moment.insertBefore (m : Moment) (ms : List Moment) : List Moment :=
  ms.takeWhile (fun n => n.time < m.time) ++ m :: ms.dropWhile fun n => n.time < m.time

/-- Puts a moment after those that are not later. -/
def Moment.insertAfter (m : Moment) (ms : List Moment) : List Moment :=
  ms.takeWhile (fun n => n.time ≤ m.time) ++ m :: ms.dropWhile fun n => n.time ≤ m.time

/-- Still comes after a kill at some time: it had been written by then, or it is the doing of a
session of its own or of the caller. -/
def Moment.outlasts (now : Nat) (m : Moment) : Bool :=
  match m.deed with
  | .write .. => m.time ≤ now
  | .aside (.swell f) => f.spared
  | .aside (.ebb f) => f.spared
  | .aside _ => true
  | .abort => now < m.time
  | _ => false

/-- How long output is collected after a kill, in milliseconds. -/
def drainGrace : Nat := 100

namespace Life

/-- The moments of a life. -/
def moments (l : Life) : List Moment :=
  l.writes.map (fun w => ⟨w.time, .write w.stream w.bytes⟩) ++
    match l.ending with
    | none => []
    | some (time, e) => [⟨time, .exit e⟩, ⟨max time l.heldUntil, .close⟩]

/-- The moments of a life on some terms. Of moments at one time a cancellation comes first, then
the deadline, and the caller leaves last. -/
def momentsOn (l : Life) (t : Terms) : List Moment :=
  let ms := l.company.foldl (fun ms a => (⟨a.1, .aside a.2⟩ : Moment).insertAfter ms) l.moments
  let ms := (⟨t.deadline, .deadline⟩ : Moment).insertBefore ms
  let ms :=
    match t.cancelAt with
    | none => ms
    | some time => (⟨time, .cancel⟩ : Moment).insertBefore ms
  match t.abortAt with
  | none => ms
  | some time => (⟨time, .abort⟩ : Moment).insertAfter ms

end Life

/-- The ticks of a supervisor until its end or until its caller goes away, and when that is. -/
structure Schedule where
  ticks : List Supervisor.Tick
  time : Nat
  aborted : Bool

/-- A schedule in the making. Ticks are kept with the last one first. -/
structure Scene where
  cancelOn : Line → Bool
  supervisor : Supervisor
  out : OpenLine
  err : OpenLine
  floods : List Flood
  ticks : List Supervisor.Tick

namespace Scene

def start (cancelOn : Line → Bool) : Scene := ⟨cancelOn, .start, .start, .start, [], []⟩

def tick (s : Scene) (t : Supervisor.Tick) : Scene :=
  { s with supervisor := s.supervisor.tick t, ticks := t :: s.ticks }

/-- During a flood there is a line before anything else is looked at. -/
def refill (s : Scene) : Scene :=
  match s.floods with
  | [] => s
  | f :: _ => s.tick (.happen (.line (f.stream.line f.text)))

/-- Something happens and is polled for. -/
def happen (s : Scene) (e : Event) : Scene := ((s.tick (.happen e)).tick .poll).refill

/-- Everything that has come is taken. -/
def catchUp (s : Scene) : Scene :=
  (List.replicate (s.supervisor.sources.queue.length + 2) Supervisor.Tick.poll).foldl tick s

def swell (s : Scene) (f : Flood) : Scene := { s with floods := f :: s.floods }.refill

/-- When the last flood is over the rest is read. -/
def ebb (s : Scene) (f : Flood) : Scene :=
  let s := { s with floods := s.floods.erase f }
  if s.floods.isEmpty then s.catchUp else s

/-- A line is delivered; the caller may cancel on it. -/
def line (s : Scene) (l : Line) : Scene :=
  let s := s.happen (.line l)
  if s.cancelOn l && s.supervisor.isWatching then s.happen .cancelled else s

def lines (s : Scene) (stream : Stream) (ls : List RawLine) : Scene :=
  ls.foldl (fun s l => s.line (stream.line l.text)) s

def write (s : Scene) (stream : Stream) (bytes : List UInt8) : Scene :=
  match stream with
  | .stdout =>
    match s.out.feed maxLineBytes bytes with
    | (ls, out) => { s with out }.lines .stdout ls
  | .stderr =>
    match s.err.feed maxLineBytes bytes with
    | (ls, err) => { s with err }.lines .stderr ls

/-- Both streams end, and with them their open lines. -/
def close (s : Scene) : Scene :=
  let out := (s.out.rest maxLineBytes).toList
  let err := (s.err.rest maxLineBytes).toList
  (({ s with out := .start, err := .start }.lines .stdout out).lines .stderr err).happen .closed

def perform (s : Scene) : Deed → Scene
  | .write stream bytes => s.write stream bytes
  | .aside (.write stream bytes) => s.write stream bytes
  | .aside (.swell f) => s.swell f
  | .aside (.ebb f) => s.ebb f
  | .aside .release => s
  | .exit e => s.happen (.exited e)
  | .close => s.close
  | .deadline => s.happen .deadline
  | .cancel => s.happen .cancelled
  | .abort => s
  | .graceOver => s.happen .graceOver

def schedule (s : Scene) (time : Nat) (aborted : Bool) : Schedule :=
  ⟨s.ticks.reverse, time, aborted⟩

/-- Goes through what comes after the kill until all has been collected or the caller goes away. -/
def collect (s : Scene) (now : Nat) : List Moment → Schedule
  | [] => s.schedule now false
  | m :: ms =>
    let now := max now m.time
    if m.deed == .abort then s.schedule now true
    else
      let s := if m.deed == .aside .release then s.close.catchUp else s.perform m.deed
      if s.supervisor.termination?.isSome then s.schedule now false else s.collect now ms

/-- What becomes of a process that is killed, given what else would have happened. Its output ends
at once unless sessions of their own hold it. -/
def aftermath (s : Scene) (now : Nat) (ms : List Moment) : Schedule :=
  let s := { s with floods := s.floods.filter (·.spared) }.happen (.exited (.signal 9))
  let late := ms.filter (·.outlasts now)
  let late :=
    if late.any (·.deed == .aside .release) then late
    else (⟨now, .aside .release⟩ : Moment).insertAfter late
  s.collect now ((⟨now + drainGrace, .graceOver⟩ : Moment).insertBefore late)

/-- Goes through moments until watching ends. -/
def play (s : Scene) (now : Nat) : List Moment → Schedule
  | [] => s.schedule now false
  | m :: ms =>
    if m.deed == .abort then s.schedule m.time true
    else
      let s := s.perform m.deed
      if s.supervisor.isWatching then s.play m.time ms else s.aftermath m.time ms

end Scene

/-- The schedule of a life on some terms. -/
def Life.schedule (l : Life) (t : Terms) : Schedule :=
  (Scene.start t.cancelOn).play 0 (l.momentsOn t)

/-- The supervisor of a life at the end of its schedule. -/
def Life.supervise (l : Life) (t : Terms) : Supervisor :=
  Supervisor.start.run (l.schedule t).ticks

end HandlerHost.Child
