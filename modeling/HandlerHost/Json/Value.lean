import HandlerHost.Decimal.Layout
import HandlerHost.Text.Dictionary

/-! JSON values. An object read from text keeps its members in ascending key order. -/
namespace HandlerHost.Json

open Text (Entries)

/-- A number is an integer where a word of 64 bits holds it, and else a binary fraction. -/
inductive Number
  | integer (value : Int)
  | real (value : Decimal.Binary64)
deriving DecidableEq, Inhabited

namespace Number

/-- What a signed or an unsigned word of 64 bits can hold. -/
def fits (i : Int) : Bool := Int64.minValue.toInt ≤ i && i < UInt64.size

def text : Number → String
  | integer i => toString i
  | real x => Decimal.Layout.json.text x

end Number

inductive Value
  | null
  | bool (b : Bool)
  | number (n : Number)
  | string (s : String)
  | array (items : List Value)
  | object (members : List (String × Value))
deriving Inhabited

namespace Value

def ofNat (n : Nat) : Value := .number (.integer n)

def ofInt (i : Int) : Value := .number (.integer i)

def strings (ss : List String) : Value := .array (ss.map .string)

/-- Null in place of an absent value. -/
def ofOption {α : Type} (f : α → Value) : Option α → Value
  | none => .null
  | some a => f a

def emptyObject : Value := .object []

def isNull : Value → Bool
  | null => true
  | _ => false

/-- The member of an object with this key. -/
def field? (k : String) : Value → Option Value
  | object members => Entries.find? k members
  | _ => none

end Value

end HandlerHost.Json
