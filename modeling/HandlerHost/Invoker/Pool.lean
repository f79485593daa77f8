import HandlerHost.Config.Source
import HandlerHost.Invoker.Stage

/-!
Invocations that share slots and files. Every action makes one step of one invocation; actions of
several invocations may come in any order. An invocation takes a slot, makes and fills its
workspace, runs its script, removes the workspace and gives the slot back. One that is aborted
kills its process, removes its workspace and gives the slot back at once.
-/
namespace HandlerHost.Invoker

open HandlerHost.Host (Errno)
open Child (Life Supervisor)

/-- What an invocation does to the world around it. -/
inductive Effect
  | slotTaken
  | operation (o : Operation)
  | started
  | groupKilled
  /-- The removal of the workspace has begun. -/
  | removal
  | slotReturned
deriving DecidableEq

/-- An operation on its way, and the invocation that started it. -/
structure Flight where
  owner : Nat
  operation : Operation

/-- Invocations are known by their position. Effects are kept with the last one first. -/
structure Pool where
  config : Config
  host : Host
  free : Nat
  invocations : List Invocation
  flights : List Flight
  effects : List (Nat × Effect)

namespace Pool

/-- A pool cannot have more slots than this. -/
def maxSlots : Nat := (UInt64.size - 1) / 8

/-- A pool for a configuration, unless that wants too many slots. -/
def ofConfig? (c : Config) (h : Host) : Option Pool :=
  let slots := c.maxConcurrent.toNat
  if maxSlots < slots then none else some ⟨c, h, slots, [], [], []⟩

/-- The directory of all workspaces. -/
def root (p : Pool) : String := p.config.resolvedRoot p.host

def update (p : Pool) (n : Nat) (f : Invocation → Invocation) : Pool :=
  { p with invocations := p.invocations.modify n f }

def note (p : Pool) (n : Nat) (e : Effect) : Pool := { p with effects := (n, e) :: p.effects }

def enter (p : Pool) (n : Nat) (s : Stage) : Pool :=
  p.update n fun v => { v with stage := s, arrived := none }

/-- Enters a stage that waits for an operation. -/
def enterWith (p : Pool) (n : Nat) (s : Stage) (o : Operation) : Pool :=
  let flight : Flight := ⟨n, o⟩
  ({ p with flights := p.flights ++ [flight] }.note n (.operation o)).enter n s

/-- Ends an invocation that holds a slot. -/
def leave (p : Pool) (n : Nat) (e : Ending) : Pool :=
  ({ p with free := p.free + 1 }.note n .slotReturned).enter n (.ended e)

/-- The workspace is no longer needed. -/
def removeWith (p : Pool) (n : Nat) (w : Workspace) (r : Result) : Pool :=
  (p.note n .removal).enterWith n (.removing w r) (.remove w)

/-- Looks the interpreter up before anything is made. -/
def resolve (p : Pool) (n : Nat) (v : Invocation) : Pool :=
  match Interpreter.resolve p.host v.request.language (p.config.commandFor v.request.language) with
  | .error e => p.leave n (.result (.failed e.text []))
  | .ok i => p.enterWith n (.rooting i) (.makeRoot p.root)

/-- A waiting invocation takes a slot if there is one. Cancellation comes first. -/
def acquire (p : Pool) (n : Nat) (v : Invocation) : Pool :=
  if v.cancelled then p.enter n (.ended (.result (.cancelled [])))
  else
    match p.free with
    | 0 => p
    | free + 1 => ({ p with free }.note n .slotTaken).resolve n v

/-- Starts the interpreter, which may fail for a reason from outside. -/
def launch (p : Pool) (n : Nat) (v : Invocation) (i : Interpreter) (w : Workspace)
    (fault : Option Errno) : Pool :=
  let started : Except Child.LaunchError Life :=
    match fault with
    | some e => .error ⟨i.program, e⟩
    | none => Child.launch p.host i v.request.language.runnerFile w.path p.config.isolation
  match started with
  | .error e => p.removeWith n w (.failed e.text [])
  | .ok life => (p.note n .started).enter n (.running w life v.supervisor)

/-- Writes the next file, or starts the interpreter when all are written. -/
def fill (p : Pool) (n : Nat) (v : Invocation) (i : Interpreter) (w : Workspace)
    (fault : Option Errno) : List (String × String) → Pool
  | [] => p.launch n v i w fault
  | (name, content) :: rest => p.enterWith n (.writing i w rest) (.write w name content)

/-- Goes on after the operation that an invocation waited for. -/
def proceed (p : Pool) (n : Nat) (v : Invocation) (r : Operation.Outcome) (fault : Option Errno) :
    Pool :=
  match v.stage, r with
  | .rooting i, .ok () => p.enterWith n (.making i) (.makeDirectory p.root v.id)
  | .rooting _, .error e => p.leave n (.result (.failed e.text []))
  | .making i, .ok () =>
    p.fill n v i (Workspace.under p.root v.id) none (Workspace.artifacts v.request)
  | .making _, .error e => p.leave n (.result (.failed e.text []))
  | .writing i w rest, .ok () => p.fill n v i w fault rest
  | .writing _ w _, .error e => p.removeWith n w (.failed e.text [])
  | .removing _ r, _ => p.leave n (.result r)
  | _, _ => p

/-- Kills the process group unless that has been done. -/
def kill (p : Pool) (n : Nat) (s : Supervisor) : Pool :=
  if s.killed then p else p.note n .groupKilled

/-- The deadline of an invocation. -/
def timeoutMs (p : Pool) (v : Invocation) : Nat :=
  (p.config.effectiveTimeout v.request.timeoutMs).toNat

/-- The result of an invocation whose process has been watched to its end. -/
def resultOf (p : Pool) (v : Invocation) (s : Supervisor) : Result :=
  Execution.ofSupervisor s p.config.maxLogLines.toNat (p.timeoutMs v)

/-- A tick of the supervisor. When watching is over the result is known. -/
def tick (p : Pool) (n : Nat) (v : Invocation) (w : Workspace) (life : Life) (s : Supervisor)
    (t : Supervisor.Tick) : Pool :=
  let s' := s.tick t
  let p := if s'.killed then p.kill n s else p
  match s'.termination? with
  | none => p.enter n (.running w life s')
  | some _ => p.removeWith n w (p.resultOf v s')

/-- Removes the workspace of an invocation that goes away. -/
def discard (p : Pool) (n : Nat) (w : Workspace) : Pool :=
  { p with host := w.remove p.host }.note n .removal

/-- The caller of an invocation goes away. -/
def abort (p : Pool) (n : Nat) (v : Invocation) : Pool :=
  match v.stage with
  | .ended _ => p
  | .waiting => p.enter n (.ended .aborted)
  | .running w _ s => ((p.kill n s).discard n w).leave n .aborted
  | .writing _ w _ => (p.discard n w).leave n .aborted
  | _ => p.leave n .aborted

/-- The caller cancels. A running invocation notices at its next poll. -/
def cancel (p : Pool) (n : Nat) (v : Invocation) : Pool :=
  let p := p.update n fun v => { v with cancelled := true }
  match v.stage with
  | .running w life s =>
    p.update n fun v => { v with stage := .running w life (s.happen .cancelled) }
  | _ => p

/-- An operation is carried out. -/
def settle (p : Pool) (k : Nat) (fault : Option Errno) : Pool :=
  match p.flights[k]? with
  | none => p
  | some f =>
    match f.operation.attempt p.host fault with
    | (host, r) =>
      { p with host, flights := p.flights.eraseIdx k }.update f.owner fun v =>
        { v with arrived := some r }

/-- Accepts a payload, or refuses it and leaves all as it is. -/
def submit (p : Pool) (payload : Payload) (id : WorkspaceId) : Except Refusal Pool :=
  (Request.ofPayload payload).map fun r =>
    { p with invocations := p.invocations ++ [.start r id] }

inductive Action
  | submit (payload : Payload) (id : WorkspaceId)
  /-- The invocation looks for a slot. -/
  | acquire (n : Nat)
  /-- An operation on its way is carried out. -/
  | settle (k : Nat) (fault : Option Errno)
  /-- The invocation goes on after its operation. -/
  | proceed (n : Nat) (fault : Option Errno)
  | tick (n : Nat) (t : Supervisor.Tick)
  | cancel (n : Nat)
  | abort (n : Nat)

/-- Applies a step to an invocation of the pool. -/
def onInvocation (p : Pool) (n : Nat) (f : Invocation → Pool) : Pool :=
  match p.invocations[n]? with
  | none => p
  | some v => f v

def apply (p : Pool) : Action → Pool
  | .submit payload id =>
    match p.submit payload id with
    | .error _ => p
    | .ok p => p
  | .acquire n => p.onInvocation n fun v =>
    match v.stage with
    | .waiting => p.acquire n v
    | _ => p
  | .settle k fault => p.settle k fault
  | .proceed n fault => p.onInvocation n fun v =>
    match v.arrived with
    | none => p
    | some r => p.proceed n v r fault
  | .tick n (.happen .cancelled) => p.onInvocation n (p.cancel n)
  | .tick n t => p.onInvocation n fun v =>
    match v.stage with
    | .running w life s => p.tick n v w life s t
    | _ => p
  | .cancel n => p.onInvocation n (p.cancel n)
  | .abort n => p.onInvocation n (p.abort n)

/-- The pool after some actions. -/
def run (p : Pool) (actions : List Action) : Pool := actions.foldl apply p

end Pool

end HandlerHost.Invoker
