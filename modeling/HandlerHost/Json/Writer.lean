import HandlerHost.Json.Value

/-!
JSON text of a value, on one line or indented by two spaces. Only the quote, the backslash and
the control characters below U+0020 are escaped. Members are written in the order they have.
-/
namespace HandlerHost.Json

def hexDigit (n : Nat) : Char := Char.ofNat (if n < 10 then 48 + n else 87 + n)

/-- A control character without a letter of its own. -/
def unicodeEscape (c : Char) : List Char :=
  let n := c.toNat
  ['\\', 'u', '0', '0', hexDigit (n / 16), hexDigit (n % 16)]

def escapeChar (c : Char) : List Char :=
  match c with
  | '"' => ['\\', '"']
  | '\\' => ['\\', '\\']
  | '\n' => ['\\', 'n']
  | '\r' => ['\\', 'r']
  | '\t' => ['\\', 't']
  | '\x08' => ['\\', 'b']
  | '\x0c' => ['\\', 'f']
  | c => if c.toNat < 0x20 then unicodeEscape c else [c]

/-- Adds characters at the end of a text. -/
def pushAll (acc : String) (cs : List Char) : String := cs.foldl String.push acc

/-- Adds a text as a string literal. -/
def literalOnto (acc : String) (s : String) : String :=
  (s.toList.foldl (fun a c => pushAll a (escapeChar c)) (acc.push '"')).push '"'

/-- The string literal of a text. -/
def literal (s : String) : String := literalOnto "" s

def boolText (b : Bool) : String := if b then "true" else "false"

namespace Value

mutual

/-- Adds the text of a value on one line. -/
def compactOnto (acc : String) : Value → String
  | null => acc ++ "null"
  | bool b => acc ++ boolText b
  | number n => acc ++ n.text
  | string s => literalOnto acc s
  | array [] => acc ++ "[]"
  | array (v :: vs) => (itemsOnto (compactOnto (acc.push '[') v) vs).push ']'
  | object [] => acc ++ "\x7b\x7d"
  | object ((k, v) :: ms) =>
    (membersOnto (compactOnto ((literalOnto (acc.push '\x7b') k).push ':') v) ms).push '\x7d'

def itemsOnto (acc : String) : List Value → String
  | [] => acc
  | v :: vs => itemsOnto (compactOnto (acc.push ',') v) vs

def membersOnto (acc : String) : List (String × Value) → String
  | [] => acc
  | (k, v) :: ms => membersOnto (compactOnto ((literalOnto (acc.push ',') k).push ':') v) ms

end

/-- The text of a value on one line, without blanks. -/
def compact (v : Value) : String := compactOnto "" v

/-- Adds a line break and `depth` steps of indentation. -/
def breakOnto (acc : String) (depth : Nat) : String :=
  pushAll (acc.push '\n') (List.replicate (2 * depth) ' ')

mutual

/-- Adds the indented text of a value that stands `depth` levels deep. -/
def prettyOnto (depth : Nat) (acc : String) : Value → String
  | null => acc ++ "null"
  | bool b => acc ++ boolText b
  | number n => acc ++ n.text
  | string s => literalOnto acc s
  | array [] => acc ++ "[]"
  | array (v :: vs) =>
    let first := prettyOnto (depth + 1) (breakOnto (acc.push '[') (depth + 1)) v
    (breakOnto (prettyItemsOnto depth first vs) depth).push ']'
  | object [] => acc ++ "\x7b\x7d"
  | object ((k, v) :: ms) =>
    let key := literalOnto (breakOnto (acc.push '\x7b') (depth + 1)) k
    let first := prettyOnto (depth + 1) (key ++ ": ") v
    (breakOnto (prettyMembersOnto depth first ms) depth).push '\x7d'

def prettyItemsOnto (depth : Nat) (acc : String) : List Value → String
  | [] => acc
  | v :: vs =>
    prettyItemsOnto depth (prettyOnto (depth + 1) (breakOnto (acc.push ',') (depth + 1)) v) vs

def prettyMembersOnto (depth : Nat) (acc : String) : List (String × Value) → String
  | [] => acc
  | (k, v) :: ms =>
    let key := literalOnto (breakOnto (acc.push ',') (depth + 1)) k
    prettyMembersOnto depth (prettyOnto (depth + 1) (key ++ ": ") v) ms

end

/-- The text of a value, one item or member a line. -/
def pretty (v : Value) : String := prettyOnto 0 "" v

end Value

end HandlerHost.Json
