import HandlerHost.Child.Launch
import HandlerHost.Response
import HandlerHost.Result
import HandlerHost.Workspace

/-!
Running the script of a workspace: what a process prints and how it ends become a result. Notes of
the host follow the kept log lines, and an empty object stands in for a result that is missing or
cannot be read.
-/
namespace HandlerHost.Execution

open Json (Value)
open Output (Decoded Line Limits)
open Child (Exit Termination Life Terms Supervisor)

/-- A note of the host among the log lines. -/
def note (text : String) : String := "[runtime] " ++ text

/-- Tells how many log lines were not kept. -/
def truncationNotes (d : Decoded) : List String :=
  if d.dropped = 0 then []
  else [note ("log output truncated (" ++ d.dropped.repr ++ " lines dropped)")]

/-- Tells that the output did not end in time. -/
def openOutputNote (timeoutMs : Nat) : String :=
  note ("output still open " ++ timeoutMs.repr ++ " ms after start, process group killed")

/-- Tells how a process ended, unless all was well. -/
def exitNotes : Exit → List String
  | .code 0 => []
  | .code n => [note ("process exited with code " ++ n.repr)]
  | .signal n => [note ("process terminated by signal " ++ n.repr)]
  | .unknown => [note "process exit status unknown"]

/-- The value of a result, where it came from, and a note if it stands in for the handler's. -/
structure Emitted where
  value : Value
  provenance : Provenance
  notes : List String

/-- Stands in for the handler's result. -/
def standIn (p : Provenance) (reason : String) : Emitted :=
  ⟨.emptyObject, p, [note (reason ++ "using \x7b\x7d")]⟩

/-- What the output says the result is. -/
def emitted (d : Decoded) : Emitted :=
  match d.result with
  | none =>
    if d.oversized then
      standIn .malformed ("result exceeded " ++ Output.maxResultBytes.repr ++ " bytes, ")
    else standIn .missing "no result emitted, "
  | some text =>
    match Value.read text with
    | .ok v => ⟨v, .captured, []⟩
    | .error e =>
      ⟨.emptyObject, .malformed, [note ("malformed result ignored, using \x7b\x7d: " ++ e.text)]⟩

/-- The result of a process that ended by itself. -/
def completed (e : Exit) (d : Decoded) (logs : List String) : Result :=
  let o := emitted d
  ⟨logs ++ exitNotes e ++ o.notes, .ofValue o.value, e.code?.map fun n => (n : Int), .completed,
    o.provenance⟩

/-- The result of a process that was killed at its deadline. -/
def timedOut (timeoutMs : Nat) (logs : List String) : Result :=
  ⟨logs ++ [note ("timed out after " ++ timeoutMs.repr ++ " ms")],
    .internalError ("Function timed out after " ++ timeoutMs.repr ++ " ms"), none, .timedOut,
    .synthetic⟩

/-- The result of a process that has been watched to its end. -/
def finalize (t : Termination) (d : Decoded) (timeoutMs : Nat) : Result :=
  let logs := d.logs ++ truncationNotes d
  match t with
  | .exited e => completed e d logs
  | .exitedPastDeadline e => completed e d (logs ++ [openOutputNote timeoutMs])
  | .timedOut => timedOut timeoutMs logs
  | .cancelled => .cancelled (logs ++ [note "invocation cancelled"])

/-- The limits on what is kept of a handler's output. -/
def limits (logLines : Nat) : Limits := ⟨logLines, Output.maxResultBytes⟩

/-- The result of some delivered lines and the end of a process. -/
def ofLines (t : Termination) (lines : List Line) (logLines timeoutMs : Nat) : Result :=
  finalize t (Output.decode (limits logLines) lines) timeoutMs

/-- The result of a watched process. -/
def ofSupervisor (s : Supervisor) (logLines timeoutMs : Nat) : Result :=
  ofLines (s.termination?.getD .cancelled) s.delivered logLines timeoutMs

/-- How a script is run. -/
structure Options where
  isolation : Isolation
  logLines : Nat
  timeoutMs : Nat

/-- Runs a script in a directory and waits for its result. -/
def run (h : Host) (i : Interpreter) (script workdir : String) (o : Options) (cancelAt : Option Nat) :
    Result :=
  match Child.launch h i script workdir o.isolation with
  | .error e => .failed e.text []
  | .ok life =>
    ofSupervisor (life.supervise ⟨o.timeoutMs, cancelAt, none, fun _ => false⟩) o.logLines
      o.timeoutMs

end HandlerHost.Execution
