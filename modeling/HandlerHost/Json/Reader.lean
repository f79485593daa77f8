import HandlerHost.Json.Scan

/-!
Reading JSON values. A value may open 127 brackets one inside another. Recursion is bounded by
`steps`, which starts above twice the length of the text; of two calls at least one consumes a
character, so the bound is never met.
-/
namespace HandlerHost.Json

open Text (isDigit)

/-- Brackets that may be open at once. -/
def maxDepth : Nat := 127

/-- What is left of a reader's bounds. -/
structure Budget where
  steps : Nat
  depth : Nat

/-- The bounds for a whole text. -/
def Budget.ofText (cs : List Char) : Budget := ⟨2 * cs.length + 2, maxDepth⟩

/-- A reader of a typed value within bounds. -/
abbrev Decoder (α : Type) := Budget → Scan α

namespace Value

mutual

def scan (steps depth : Nat) (cs : List Char) : Except Fault (Value × List Char) :=
  match steps with
  | 0 => .error (.atNext .tooDeep cs)
  | steps + 1 =>
    match skipSpace cs with
    | [] => .error (.atNext .endInValue [])
    | 'n' :: r => (scanWord ['u', 'l', 'l'] r).map fun r => (.null, r)
    | 't' :: r => (scanWord ['r', 'u', 'e'] r).map fun r => (.bool true, r)
    | 'f' :: r => (scanWord ['a', 'l', 's', 'e'] r).map fun r => (.bool false, r)
    | '-' :: r => (scanNumber true r).map fun (n, r) => (.number n, r)
    | '"' :: r => (scanString [] r).map fun (s, r) => (.string (String.ofList s), r)
    | '[' :: r =>
      match depth with
      | 0 => .error (.atNext .tooDeep ('[' :: r))
      | depth + 1 => scanItems steps depth [] r
    | '\x7b' :: r =>
      match depth with
      | 0 => .error (.atNext .tooDeep ('\x7b' :: r))
      | depth + 1 => scanMembers steps depth true [] r
    | c :: r =>
      if isDigit c then (scanNumber false (c :: r)).map fun (n, r) => (.number n, r)
      else .error (.atNext .valueExpected (c :: r))

/-- The items after an opening bracket; `acc` holds those read in reverse. -/
def scanItems (steps depth : Nat) (acc : List Value) (cs : List Char) :
    Except Fault (Value × List Char) :=
  match steps with
  | 0 => .error (.atNext .tooDeep cs)
  | steps + 1 =>
    match nextItem acc.isEmpty cs with
    | .error f => .error f
    | .ok none => .ok (.array acc.reverse, (skipSpace cs).drop 1)
    | .ok (some r) =>
      match scan steps depth r with
      | .error f => .error f
      | .ok (v, r) => scanItems steps depth (v :: acc) r

/-- The members after an opening brace; of members with one key the last counts. -/
def scanMembers (steps depth : Nat) (first : Bool) (acc : List (String × Value))
    (cs : List Char) : Except Fault (Value × List Char) :=
  match steps with
  | 0 => .error (.atNext .tooDeep cs)
  | steps + 1 =>
    match nextKey first cs with
    | .error f => .error f
    | .ok none => .ok (.object acc, (skipSpace cs).drop 1)
    | .ok (some r) =>
      match scanString [] r with
      | .error f => .error f
      | .ok (k, r) =>
        match scanColon r with
        | .error f => .error f
        | .ok r =>
          match scan steps depth r with
          | .error f => .error f
          | .ok (v, r) =>
            scanMembers steps depth false (Text.Entries.insert (String.ofList k) v acc) r

end

def decoder : Decoder Value := fun b => scan b.steps b.depth

end Value

/-- Reads a whole text with a decoder; only blanks may follow the value. -/
def decode {α : Type} (d : Decoder α) (text : String) : Except Error α :=
  let cs := text.toList
  let result : Except Fault α := do
    let (a, rest) ← d (.ofText cs) cs
    scanEnd rest
    return a
  result.mapError fun f => f.locate text

/-- The value that a text denotes. -/
def Value.read (text : String) : Except Error Value := decode Value.decoder text

end HandlerHost.Json
