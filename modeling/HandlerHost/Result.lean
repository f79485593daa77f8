import HandlerHost.Response

/-! What is known of an invocation when it is over. -/
namespace HandlerHost

open Json (Decoder)

/-- How an invocation ended. -/
inductive Outcome
  | completed
  | timedOut
  | cancelled
  | failed
deriving DecidableEq, Inhabited

namespace Outcome

def all : List Outcome := [completed, timedOut, cancelled, failed]

def name : Outcome → String
  | completed => "completed"
  | timedOut => "timed_out"
  | cancelled => "cancelled"
  | failed => "failed"

def decoder : Decoder Outcome := .variant (all.map fun o => (o.name, o))

end Outcome

/-- Where a response came from: the handler's own result, an empty one in place of a missing or a
malformed result, or the host itself. -/
inductive Provenance
  | captured
  | missing
  | malformed
  | synthetic
deriving DecidableEq, Inhabited

namespace Provenance

def all : List Provenance := [captured, missing, malformed, synthetic]

def name : Provenance → String
  | captured => "captured"
  | missing => "missing"
  | malformed => "malformed"
  | synthetic => "synthetic"

def decoder : Decoder Provenance := .variant (all.map fun p => (p.name, p))

/-- An empty result stands in for the handler's. -/
def isFallback : Provenance → Bool
  | missing => true
  | malformed => true
  | _ => false

end Provenance

structure Result where
  logs : List String
  response : Response
  exitCode : Option Int
  outcome : Outcome
  provenance : Provenance
deriving DecidableEq, Inhabited

namespace Result

/-- The result of an invocation that could not be run. -/
def failed (message : String) (logs : List String) : Result :=
  ⟨logs, .internalError message, none, .failed, .synthetic⟩

/-- The result of an invocation that its caller cancelled. -/
def cancelled (logs : List String) : Result :=
  ⟨logs, .internalError "Invocation cancelled", none, .cancelled, .synthetic⟩

def isSuccess (r : Result) : Bool := r.outcome == .completed && r.exitCode == some 0

def timedOut (r : Result) : Bool := r.outcome == .timedOut

end Result

end HandlerHost
