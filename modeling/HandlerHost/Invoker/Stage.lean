import HandlerHost.Execution
import HandlerHost.Invoker.Operation
import HandlerHost.Reply

/-! Where an invocation stands between its request and its result. -/
namespace HandlerHost.Invoker

open Child (Life Supervisor)

/-- How an accepted invocation ends. -/
inductive Ending
  | result (r : Result)
  /-- The caller went away. -/
  | aborted

def Ending.result? : Ending → Option Result
  | result r => some r
  | aborted => none

/-- The stages of an invocation. It waits for a file operation where its root or its directory is
made, where a file is written and where the directory is removed. -/
inductive Stage
  /-- For a slot. -/
  | waiting
  | rooting (i : Interpreter)
  | making (i : Interpreter)
  /-- One file is being written; the others follow. -/
  | writing (i : Interpreter) (w : Workspace) (rest : List (String × String))
  | running (w : Workspace) (life : Life) (s : Supervisor)
  | removing (w : Workspace) (r : Result)
  | ended (e : Ending)

namespace Stage

/-- An invocation holds a slot from the time it gets one to its end. -/
def holdsSlot : Stage → Bool
  | waiting => false
  | ended _ => false
  | _ => true

/-- The workspace that has been made and has not been given up. -/
def workspace? : Stage → Option Workspace
  | writing _ w _ => some w
  | running w _ _ => some w
  | _ => none

end Stage

structure Invocation where
  request : Request
  id : WorkspaceId
  cancelled : Bool
  stage : Stage
  /-- The outcome of the operation that the stage waits for. -/
  arrived : Option Operation.Outcome

namespace Invocation

def start (request : Request) (id : WorkspaceId) : Invocation :=
  ⟨request, id, false, .waiting, none⟩

def ending? (v : Invocation) : Option Ending :=
  match v.stage with
  | .ended e => some e
  | _ => none

/-- A supervisor for the invocation's process. It knows of an earlier cancellation. -/
def supervisor (v : Invocation) : Supervisor :=
  if v.cancelled then Supervisor.start.happen .cancelled else .start

end Invocation

end HandlerHost.Invoker
