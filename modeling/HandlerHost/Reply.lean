import HandlerHost.Result

/-! The wire form of an answer: a response with logs, or the message of a refusal. -/
namespace HandlerHost

open Json (Value Decoder Shape)

structure Reply where
  ok : Bool
  response : Option Response
  error : Option String
  logs : Option (List String)
deriving DecidableEq

namespace Reply

def ofResult (r : Result) : Reply := ⟨true, some r.response, none, some r.logs⟩

def refusal (message : String) : Reply := ⟨false, none, some message, none⟩

/-- A member that is left out when its value is absent. -/
def member {α : Type} (k : String) (f : α → Value) (a : Option α) : List (String × Value) :=
  (a.map fun a => (k, f a)).toList

def toValue (r : Reply) : Value :=
  .object (("ok", .bool r.ok) :: member "response" Response.toValue r.response ++
    member "error" .string r.error ++ member "logs" .strings r.logs)

structure Draft where
  ok : Option Bool := none
  response : Option (Option Response) := none
  error : Option (Option String) := none
  logs : Option (Option (List String)) := none

def Draft.finish (d : Draft) : Except String Reply :=
  match d.ok with
  | some ok => .ok ⟨ok, d.response.join, d.error.join, d.logs.join⟩
  | none => .error "ok"

def shape : Shape Draft Reply where
  name := "InvocationResponse"
  fields := [
    .of "ok" .bool (·.ok.isSome) fun x d => { d with ok := some x },
    .of "response" (.option Response.decoder) (·.response.isSome) fun x d =>
      { d with response := some x },
    .of "error" (.option .string) (·.error.isSome) fun x d => { d with error := some x },
    .of "logs" (.option (.list .string)) (·.logs.isSome) fun x d => { d with logs := some x }]
  start := {}
  finish := Draft.finish

def decoder : Decoder Reply := shape.decoder

end Reply

end HandlerHost
