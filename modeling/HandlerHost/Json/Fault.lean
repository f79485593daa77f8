import HandlerHost.Json.Value
import HandlerHost.Text.Quoted

/-!
Why a JSON text is refused and where. A fault is found by a reader that sees only what is left of
the text, so it counts the bytes that are still unread; `Fault.locate` turns them into a line and
a column of the whole text.
-/
namespace HandlerHost.Json

/-- What stands in the text where something else was wanted. -/
inductive Found
  | number (n : Number)
  | string (s : String)
  | bool (b : Bool)
  | null
  | sequence
  | map
deriving DecidableEq

def Found.text : Found → String
  | .number (.integer i) => "integer `" ++ toString i ++ "`"
  | .number (.real x) => "floating point `" ++ Decimal.Layout.json.text x ++ "`"
  | .string s => "string " ++ Text.quoted s
  | .bool b => "boolean `" ++ (if b then "true" else "false") ++ "`"
  | .null => "null"
  | .sequence => "sequence"
  | .map => "map"

inductive Reason
  | endInValue
  | endInList
  | endInObject
  | endInString
  | valueExpected
  | wordExpected
  | colonExpected
  | listEndExpected
  | objectEndExpected
  | keyExpected
  | trailingComma
  | trailingCharacters
  | invalidNumber
  | numberOutOfRange
  | invalidEscape
  | loneSurrogate
  | unpairedSurrogate
  | controlCharacter
  | tooDeep
  | wrongType (found : Found) (wanted : String)
  | wrongValue (found : Found) (wanted : String)
  | wrongLength (length : Nat) (wanted : String)
  | unknownVariant (name : String) (known : List String)
  | missingField (name : String)
  | duplicateField (name : String)
deriving DecidableEq

/-- Names in quotes, the last of two after an "or", more than two as a list. -/
def alternatives : List String → String
  | [a, b] => "`" ++ a ++ "` or `" ++ b ++ "`"
  | [a] => "`" ++ a ++ "`"
  | names => "one of " ++ String.intercalate ", " (names.map fun n => "`" ++ n ++ "`")

def Reason.text : Reason → String
  | endInValue => "EOF while parsing a value"
  | endInList => "EOF while parsing a list"
  | endInObject => "EOF while parsing an object"
  | endInString => "EOF while parsing a string"
  | valueExpected => "expected value"
  | wordExpected => "expected ident"
  | colonExpected => "expected `:`"
  | listEndExpected => "expected `,` or `]`"
  | objectEndExpected => "expected `,` or `\x7d`"
  | keyExpected => "key must be a string"
  | trailingComma => "trailing comma"
  | trailingCharacters => "trailing characters"
  | invalidNumber => "invalid number"
  | numberOutOfRange => "number out of range"
  | invalidEscape => "invalid escape"
  | loneSurrogate => "lone leading surrogate in hex escape"
  | unpairedSurrogate => "unexpected end of hex escape"
  | controlCharacter => "control character (\\u0000-\\u001F) found while parsing a string"
  | tooDeep => "recursion limit exceeded"
  | wrongType found wanted => "invalid type: " ++ found.text ++ ", expected " ++ wanted
  | wrongValue found wanted => "invalid value: " ++ found.text ++ ", expected " ++ wanted
  | wrongLength n wanted => "invalid length " ++ toString n ++ ", expected " ++ wanted
  | unknownVariant name known =>
    "unknown variant `" ++ name ++ "`, expected " ++ alternatives known
  | missingField name => "missing field `" ++ name ++ "`"
  | duplicateField name => "duplicate field `" ++ name ++ "`"

/-- UTF-8 bytes of some characters. -/
def byteCount (cs : List Char) : Nat := cs.foldl (fun n c => n + c.utf8Size) 0

/-- A reason, with the number of bytes not yet consumed; a peeked fault points one byte further. -/
structure Fault where
  reason : Reason
  unread : Nat
  peeked : Bool
deriving DecidableEq

namespace Fault

/-- A fault just after what was consumed. -/
def consumed (reason : Reason) (rest : List Char) : Fault := ⟨reason, byteCount rest, false⟩

/-- A fault at the next byte. -/
def atNext (reason : Reason) (rest : List Char) : Fault := ⟨reason, byteCount rest, true⟩

/-- A fault after `n` more bytes of what is left. -/
def after (n : Nat) (reason : Reason) (rest : List Char) : Fault :=
  ⟨reason, byteCount rest - n, false⟩

end Fault

/-- A line, and the bytes before a place on it; lines count from one. -/
structure Position where
  line : Nat
  column : Nat
deriving DecidableEq

/-- The position after the given bytes. -/
def Position.after (bytes : List UInt8) : Position :=
  bytes.foldl (fun p b => if b == 10 then ⟨p.line + 1, 0⟩ else ⟨p.line, p.column + 1⟩) ⟨1, 0⟩

/-- A refused text: the reason and the position. -/
structure Error where
  reason : Reason
  position : Position
deriving DecidableEq

def Error.text (e : Error) : String :=
  e.reason.text ++ " at line " ++ toString e.position.line ++ " column " ++
    toString e.position.column

/-- The place of a fault in the whole text. -/
def Fault.locate (f : Fault) (text : String) : Error :=
  let bytes := text.toUTF8.toList
  let read := bytes.length - f.unread
  ⟨f.reason, Position.after (bytes.take (if f.peeked then min bytes.length (read + 1) else read))⟩

end HandlerHost.Json
