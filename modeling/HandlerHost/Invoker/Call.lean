import HandlerHost.Invoker.Pool

/-!
Calls on a clock. Each call says when its caller cancels or goes away; the life of its process says
when the rest happens. Calls that are made together get slots in their order, each as soon as one
is free. An operation that outlasts its caller is carried out along with those of the next call.
-/
namespace HandlerHost.Invoker

/-- Times are in milliseconds after the call. -/
structure Call where
  payload : Payload
  id : WorkspaceId
  cancelAt : Option Nat
  abortAt : Option Nat

inductive Answer
  | refused (e : Refusal)
  | ended (e : Ending)

/-- The reply on the wire; a caller that went away gets none. -/
def Answer.reply? : Answer → Option Reply
  | refused e => some (.refusal e.text)
  | ended (.result r) => some (.ofResult r)
  | ended .aborted => none

/-- How the wait for a slot ends. -/
inductive Wait
  | slot (time : Nat)
  | cancelled
  | aborted
deriving DecidableEq

/-- A time comes no later than another, which may never come. -/
def comesBy (time : Nat) (other : Option Nat) : Bool := other.all fun t => time ≤ t

namespace Call

/-- A cancellation counts up to the time of the slot, and a caller that goes away goes last. -/
def wait (c : Call) (slotAt : Option Nat) : Wait :=
  match c.cancelAt, slotAt with
  | some t, _ =>
    if comesBy t slotAt && comesBy t c.abortAt then .cancelled
    else
      match slotAt with
      | some s => if comesBy s c.abortAt then .slot s else .aborted
      | none => .aborted
  | none, some s => if comesBy s c.abortAt then .slot s else .aborted
  | none, none => .aborted

/-- The terms on which the process of a call runs that got its slot at some time. -/
def terms (c : Call) (slotAt timeoutMs : Nat) : Child.Terms :=
  ⟨timeoutMs, c.cancelAt.map (· - slotAt), c.abortAt.map (· - slotAt), fun _ => false⟩

end Call

namespace Pool

/-- The most operations of one invocation: the root, the directory, three files and the removal. -/
def maxOperations : Nat := 6

/-- Carries out all operations on their way. -/
def settleAll (p : Pool) : Pool := p.run (List.replicate p.flights.length (.settle 0 none))

/-- Carries out all operations on their way, and those that an invocation comes to. -/
def carryOut (p : Pool) (n : Nat) : Nat → Pool
  | 0 => p
  | k + 1 => (p.settleAll.apply (.proceed n none)).carryOut n k

/-- How long the operation takes that an invocation waits for. -/
def pause (p : Pool) (n : Nat) : Nat :=
  match p.flights.find? fun f => f.owner == n with
  | none => 0
  | some f => f.operation.lasts

/-- Watches the process of an invocation, if it was started then, and tells when that is over. -/
def watchFrom (p : Pool) (n : Nat) (c : Call) (startAt : Nat) : Pool × Nat :=
  match p.invocations[n]? with
  | none => (p, startAt)
  | some v =>
    match v.stage with
    | .running _ life _ =>
      let plan := life.schedule (c.terms startAt (p.timeoutMs v))
      let p := p.run (plan.ticks.map (.tick n))
      (if plan.aborted then p.apply (.abort n) else p.carryOut n maxOperations,
        startAt + plan.time)
    | _ => (p, startAt)

/-- Runs an invocation that gets its slot at some time, and tells when it gives it back. -/
def runFrom (p : Pool) (n : Nat) (c : Call) (slotAt : Nat) : Pool × Nat :=
  let p := p.apply (.acquire n)
  let startAt := slotAt + p.pause n
  if comesBy startAt c.abortAt then (p.carryOut n maxOperations).watchFrom n c startAt
  else (p.apply (.abort n), c.abortAt.getD startAt)

/-- Makes a call for which a slot is free at some time, if ever. Tells when the slot it took is
free again. -/
def call (p : Pool) (c : Call) (slotAt : Option Nat) : Pool × Answer × Option Nat :=
  match p.submit c.payload c.id with
  | .error e => (p, .refused e, none)
  | .ok p =>
    let n := p.invocations.length - 1
    let (p, back) :=
      match c.wait slotAt with
      | .slot s =>
        let (p, back) := p.runFrom n c s
        (p, some back)
      | .cancelled => ((p.apply (.cancel n)).apply (.acquire n), none)
      | .aborted => (p.apply (.abort n), none)
    (p, .ended ((p.invocations[n]?.bind Invocation.ending?).getD .aborted), back)

/-- Makes calls together, given when slots are free. -/
def callAll (p : Pool) (slots : List Nat) : List Call → Pool × List Answer
  | [] => (p, [])
  | c :: cs =>
    let slotAt := slots.min?
    let (p, answer, back) := p.call c slotAt
    let slots :=
      match slotAt, back with
      | some s, some t => t :: slots.erase s
      | _, _ => slots
    let (p, answers) := p.callAll slots cs
    (p, answer :: answers)

/-- Makes calls together on a pool that is at rest. -/
def together (p : Pool) (cs : List Call) : Pool × List Answer :=
  p.callAll (List.replicate (min p.free cs.length) 0) cs

end Pool

end HandlerHost.Invoker
