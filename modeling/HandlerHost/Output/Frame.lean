import HandlerHost.Output.Sentinel
import HandlerHost.Text.Blank

/-!
Separating a child's lines into logs and a result. The result stands on standard output between
two sentinel lines. The last complete result counts: a later start sentinel returns it to the
logs, and so does it with a capture still open. A capture that costs more than the limit is
returned to the logs as well.
-/
namespace HandlerHost.Output

inductive Line
  | stdout (text : String)
  | stderr (text : String)
deriving DecidableEq

/-- Bounds on what is kept: the number of log lines and the cost of a result. -/
structure Limits where
  logLines : Nat
  resultBytes : Nat

/-- The greatest cost of a result that is kept by default. -/
def maxResultBytes : Nat := 6291456

/-- A line costs its bytes and one for its end. -/
def cost (line : String) : Nat := line.utf8ByteSize + 1

inductive Mode
  | logging
  /-- The lines since the start sentinel and the sum of their costs. -/
  | capturing (lines : Array String) (spent : Nat)
deriving DecidableEq

structure Frame where
  mode : Mode
  kept : Option (Array String)
  logs : Array String
  dropped : Nat
  oversized : Bool
deriving DecidableEq

/-- What is known when the output has ended. -/
structure Decoded where
  logs : List String
  result : Option String
  dropped : Nat
  oversized : Bool
deriving DecidableEq

namespace Frame

def start : Frame := ⟨.logging, none, #[], 0, false⟩

def isCapturing (f : Frame) : Bool :=
  match f.mode with
  | .logging => false
  | .capturing .. => true

/-- A blank line is no log line; a line beyond the limit is only counted. -/
def log (l : Limits) (f : Frame) (line : String) : Frame :=
  if Text.blank line then f
  else if l.logLines ≤ f.logs.size then { f with dropped := f.dropped + 1 }
  else { f with logs := f.logs.push line }

/-- The start sentinel and the lines after it become log lines. -/
def logCapture (l : Limits) (f : Frame) (lines : Array String) : Frame :=
  lines.foldl (log l) (f.log l resultStart)

/-- A kept result becomes log lines, both sentinels included. -/
def logKept (l : Limits) (f : Frame) : Frame :=
  match f.kept with
  | none => f
  | some lines => ({ f with kept := none }.logCapture l lines).log l resultEnd

/-- An open capture becomes log lines. -/
def logOpen (l : Limits) (f : Frame) : Frame :=
  match f.mode with
  | .logging => f
  | .capturing lines _ => { f with mode := .logging }.logCapture l lines

/-- A start sentinel opens a capture, whatever came before. -/
def startCapture (l : Limits) (f : Frame) : Frame :=
  { (f.logKept l).logOpen l with mode := .capturing #[] 0 }

/-- A line on standard output. -/
def pushStdout (l : Limits) (f : Frame) (line : String) : Frame :=
  if line == resultStart then f.startCapture l
  else
    match f.mode with
    | .logging => f.log l line
    | .capturing lines spent =>
      if line == resultEnd then { f with mode := .logging, kept := some lines }
      else if l.resultBytes < spent + cost line then
        ({ f with oversized := true }.logOpen l).log l line
      else { f with mode := .capturing (lines.push line) (spent + cost line) }

/-- A line on standard error is always a log line. -/
def push (l : Limits) (f : Frame) : Line → Frame
  | .stdout line => f.pushStdout l line
  | .stderr line => f.log l line

/-- A capture that is still open when the output ends is no result. -/
def finish (l : Limits) (f : Frame) : Decoded :=
  let f := f.logOpen l
  ⟨f.logs.toList, f.kept.map fun lines => String.intercalate "\n" lines.toList, f.dropped,
    f.oversized⟩

/-- The frame after some lines. -/
def run (l : Limits) (lines : List Line) : Frame := lines.foldl (push l) start

end Frame

/-- The logs and the result of a child's lines. -/
def decode (l : Limits) (lines : List Line) : Decoded := (Frame.run l lines).finish l

end HandlerHost.Output
