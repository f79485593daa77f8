import HandlerHost.Json.Decoder
import HandlerHost.Json.Writer
import HandlerHost.Text.Blank

/-!
The answer every invocation gives: a status, headers and a body, and how a value of any shape is
coerced into one.
-/
namespace HandlerHost

open Json (Value Number Decoder Field Shape)
open Text (Dictionary Entries)

structure Response where
  statusCode : UInt16
  headers : Dictionary String
  body : String
deriving DecidableEq

namespace Response

def defaultStatus : UInt16 := 200

instance : Inhabited Response := ⟨⟨defaultStatus, .empty, ""⟩⟩

/-- A status of two hundred and something. -/
def isSuccess (r : Response) : Bool := 200 ≤ r.statusCode && r.statusCode < 300

/-- A response whose body is a JSON object with the message as its only member. -/
def error (status : UInt16) (message : String) : Response :=
  ⟨status, Dictionary.empty.insert "content-type" "application/json",
    (Value.object [("error", .string message)]).compact⟩

def internalError (message : String) : Response := error 500 message

/-- The word of 64 bits that a status field holds, as a number or as text. A binary fraction beyond
the words counts as the greatest. -/
def statusWord? : Option Value → Option UInt64
  | some (.number (.integer i)) =>
    if 0 ≤ i && i < UInt64.size then some (UInt64.ofNat i.toNat) else none
  | some (.number (.real x)) => x.toNat?.map fun n => UInt64.ofNat (min (UInt64.size - 1) n)
  | some (.string s) => Text.word? (Text.trimChars s.toList)
  | _ => none

/-- A status that is no 16 bit number is the default one. -/
def statusOf (field : Option Value) : UInt16 :=
  match statusWord? field with
  | some n => if n.toNat < UInt16.size then n.toUInt16 else defaultStatus
  | none => defaultStatus

/-- The text of a value: nothing for null, a string as it stands, all else as JSON. -/
def textOf : Value → Option String
  | .null => none
  | .string s => some s
  | v => some v.compact

/-- The texts of an object's members; members that are null are left out. -/
def headersOf : Option Value → Dictionary String
  | some (.object members) =>
    .ofList (members.filterMap fun (k, v) => (textOf v).map fun s => (k, s))
  | _ => .empty

def bodyOf (field : Option Value) : String := (field.bind textOf).getD ""

/-- An object is read as a record of status, headers and body; any other value is the body. -/
def ofValue : Value → Response
  | .object members =>
    ⟨statusOf (Entries.find? "statusCode" members), headersOf (Entries.find? "headers" members),
      bodyOf (Entries.find? "body" members)⟩
  | v => ⟨defaultStatus, .empty, bodyOf (some v)⟩

def headersValue (headers : Dictionary String) : Value :=
  .object (headers.entries.map fun (k, s) => (k, .string s))

def toValue (r : Response) : Value :=
  .object [("statusCode", .ofNat r.statusCode.toNat), ("headers", headersValue r.headers),
    ("body", .string r.body)]

structure Draft where
  statusCode : Option UInt16 := none
  headers : Option (Dictionary String) := none
  body : Option String := none

def Draft.finish (d : Draft) : Except String Response :=
  match d.statusCode, d.headers, d.body with
  | some status, some headers, some body => .ok ⟨status, headers, body⟩
  | none, _, _ => .error "statusCode"
  | _, none, _ => .error "headers"
  | _, _, none => .error "body"

def shape : Shape Draft Response where
  name := "CanonicalResponse"
  fields := [
    .of "statusCode" .word16 (·.statusCode.isSome) fun x d => { d with statusCode := some x },
    .of "headers" (.dictionary .string) (·.headers.isSome) fun x d => { d with headers := some x },
    .of "body" .string (·.body.isSome) fun x d => { d with body := some x }]
  start := {}
  finish := Draft.finish

def decoder : Decoder Response := shape.decoder

end Response

end HandlerHost
