import HandlerHost.Language
import HandlerHost.Payload

/-! Requests: payloads that have been checked. -/
namespace HandlerHost

open Json (Value)

/-- The handler looked up when a payload names none. -/
def defaultHandler : String := "handler"

structure Request where
  language : Language
  code : String
  event : Value
  handler : String
  timeoutMs : Option UInt64

/-- Why a payload is refused. -/
inductive Refusal
  | unsupportedRuntime (name : String)
  | emptyCode
  | invalidHandler (name : String)
  | zeroTimeout
deriving DecidableEq

def Refusal.text : Refusal → String
  | unsupportedRuntime name => "Unsupported runtime: " ++ name
  | emptyCode => "Code must not be empty"
  | invalidHandler name => "Invalid handler name '" ++ name ++ "': expected an identifier"
  | zeroTimeout => "timeoutMs must be greater than zero"

def isAsciiLetter (c : Char) : Bool := ('a' ≤ c && c ≤ 'z') || ('A' ≤ c && c ≤ 'Z')

def startsName (c : Char) : Bool := isAsciiLetter c || c == '_' || c == '$'

def continuesName (c : Char) : Bool := startsName c || Text.isDigit c

/-- A letter, an underscore or a dollar sign, followed by any of these and digits. -/
def isIdentifier (s : String) : Bool :=
  match s.toList with
  | [] => false
  | c :: cs => startsName c && cs.all continuesName

namespace Request

/-- The first fault of a payload counts, in the order runtime, code, handler, timeout. A null
event becomes an empty object. -/
def ofPayload (p : Payload) : Except Refusal Request :=
  let handler := p.handler.getD defaultHandler
  match Language.ofName? p.runtime with
  | none => .error (.unsupportedRuntime p.runtime)
  | some language =>
    if Text.blank p.code then .error .emptyCode
    else if !isIdentifier handler then .error (.invalidHandler handler)
    else if p.timeoutMs == some 0 then .error .zeroTimeout
    else
      .ok ⟨language, p.code, if p.event.isNull then .emptyObject else p.event, handler,
        p.timeoutMs⟩

end Request

end HandlerHost
