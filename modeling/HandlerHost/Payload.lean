import HandlerHost.Json.Decoder
import HandlerHost.Json.Writer

/-! What a caller sends. Nothing in it has been checked. -/
namespace HandlerHost

open Json (Value Decoder Shape)

structure Payload where
  runtime : String
  code : String
  event : Value
  handler : Option String
  timeoutMs : Option UInt64
deriving Inhabited

namespace Payload

/-- A payload with an empty event, for the default handler and deadline. -/
def ofCode (runtime code : String) : Payload := ⟨runtime, code, .emptyObject, none, none⟩

def toValue (p : Payload) : Value :=
  .object [("runtime", .string p.runtime), ("code", .string p.code), ("event", p.event),
    ("handler", .ofOption .string p.handler),
    ("timeoutMs", .ofOption (fun t => .ofNat t.toNat) p.timeoutMs)]

structure Draft where
  runtime : Option String := none
  code : Option String := none
  event : Option Value := none
  handler : Option (Option String) := none
  timeoutMs : Option (Option UInt64) := none

/-- Runtime and code must be there. -/
def Draft.finish (d : Draft) : Except String Payload :=
  match d.runtime, d.code with
  | some runtime, some code =>
    .ok ⟨runtime, code, d.event.getD .emptyObject, d.handler.join, d.timeoutMs.join⟩
  | none, _ => .error "runtime"
  | _, none => .error "code"

def shape : Shape Draft Payload where
  name := "InvocationPayload"
  fields := [
    .of "runtime" .string (·.runtime.isSome) fun x d => { d with runtime := some x },
    .of "code" .string (·.code.isSome) fun x d => { d with code := some x },
    .of "event" Value.decoder (·.event.isSome) fun x d => { d with event := some x },
    .of "handler" (.option .string) (·.handler.isSome) fun x d => { d with handler := some x },
    .of "timeoutMs" (.option .word64) (·.timeoutMs.isSome) fun x d =>
      { d with timeoutMs := some x }]
  start := {}
  finish := Draft.finish

def decoder : Decoder Payload := shape.decoder

end Payload

end HandlerHost
