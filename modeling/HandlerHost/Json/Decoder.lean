import HandlerHost.Json.Reader
import HandlerHost.Json.Skip

/-!
Readers of typed values. A record is read from an object, whose unknown members are passed over,
or from an array of its fields in their order.
-/
namespace HandlerHost.Json

open Text (Dictionary isDigit)

/-- The fault of a value of another type. A scalar is consumed, and its own faults come first; an
opening bracket is not. -/
def mistyped (wanted : String) (cs : List Char) : Fault :=
  let wrong (found : Found) (rest : List Char) : Fault := .consumed (.wrongType found wanted) rest
  let word (letters : List Char) (found : Found) (r : List Char) : Fault :=
    match scanWord letters r with
    | .ok rest => wrong found rest
    | .error f => f
  let numeral (negative : Bool) (r : List Char) : Fault :=
    match scanNumber negative r with
    | .ok (n, rest) => wrong (.number n) rest
    | .error f => f
  match cs with
  | [] => .atNext .endInValue []
  | 'n' :: r => word ['u', 'l', 'l'] .null r
  | 't' :: r => word ['r', 'u', 'e'] (.bool true) r
  | 'f' :: r => word ['a', 'l', 's', 'e'] (.bool false) r
  | '-' :: r => numeral true r
  | '"' :: r =>
    match scanString [] r with
    | .ok (s, rest) => wrong (.string (String.ofList s)) rest
    | .error f => f
  | '[' :: r => wrong .sequence ('[' :: r)
  | '\x7b' :: r => wrong .map ('\x7b' :: r)
  | c :: r => if isDigit c then numeral false (c :: r) else .atNext .valueExpected (c :: r)

namespace Decoder

def string : Decoder String := fun _ cs =>
  match skipSpace cs with
  | '"' :: r => (scanString [] r).map fun (s, r) => (String.ofList s, r)
  | r => .error (mistyped "a string" r)

def bool : Decoder Bool := fun _ cs =>
  match skipSpace cs with
  | 't' :: r => (scanWord ['r', 'u', 'e'] r).map fun r => (true, r)
  | 'f' :: r => (scanWord ['a', 'l', 's', 'e'] r).map fun r => (false, r)
  | r => .error (mistyped "a boolean" r)

/-- A natural number below `2 ^ bits`. -/
def word (bits : Nat) (wanted : String) : Decoder Nat := fun _ cs =>
  let check : Number × List Char → Except Fault (Nat × List Char) := fun (n, rest) =>
    match n with
    | .integer i =>
      if 0 ≤ i && i < Nat.pow 2 bits then .ok (i.toNat, rest)
      else .error (.consumed (.wrongValue (.number n) wanted) rest)
    | .real _ => .error (.consumed (.wrongType (.number n) wanted) rest)
  match skipSpace cs with
  | '-' :: r => scanNumber true r >>= check
  | c :: r =>
    if isDigit c then scanNumber false (c :: r) >>= check else .error (mistyped wanted (c :: r))
  | [] => .error (mistyped wanted [])

def word16 : Decoder UInt16 := fun b cs =>
  (word 16 "u16" b cs).map fun (n, r) => (UInt16.ofNat n, r)

def word64 : Decoder UInt64 := fun b cs =>
  (word 64 "u64" b cs).map fun (n, r) => (UInt64.ofNat n, r)

def unit : Decoder Unit := fun _ cs =>
  match skipSpace cs with
  | 'n' :: r => (scanWord ['u', 'l', 'l'] r).map fun r => ((), r)
  | r => .error (mistyped "unit" r)

/-- Null stands for an absent value. -/
def option {α : Type} (d : Decoder α) : Decoder (Option α) := fun b cs =>
  match skipSpace cs with
  | 'n' :: r => (scanWord ['u', 'l', 'l'] r).map fun r => (none, r)
  | r => (d b r).map fun (a, r) => (some a, r)

/-- The items after an opening bracket; `acc` holds those read in reverse. -/
def items {α : Type} (d : Decoder α) (b : Budget) :
    Nat → List α → List Char → Except Fault (List α × List Char)
  | 0, _, cs => .error (.atNext .tooDeep cs)
  | steps + 1, acc, cs =>
    match nextItem acc.isEmpty cs with
    | .error f => .error f
    | .ok none => .ok (acc.reverse, (skipSpace cs).drop 1)
    | .ok (some r) =>
      match d b r with
      | .error f => .error f
      | .ok (a, r) => items d b steps (a :: acc) r

def list {α : Type} (d : Decoder α) : Decoder (List α) := fun b cs =>
  match skipSpace cs, b.depth with
  | '[' :: r, 0 => .error (.atNext .tooDeep ('[' :: r))
  | '[' :: r, depth + 1 => items d ⟨b.steps, depth⟩ b.steps [] r
  | r, _ => .error (mistyped "a sequence" r)

/-- The members after an opening brace. -/
def entries {α : Type} (d : Decoder α) (b : Budget) :
    Nat → Bool → Dictionary α → List Char → Except Fault (Dictionary α × List Char)
  | 0, _, _, cs => .error (.atNext .tooDeep cs)
  | steps + 1, first, acc, cs =>
    match nextKey first cs with
    | .error f => .error f
    | .ok none => .ok (acc, (skipSpace cs).drop 1)
    | .ok (some r) =>
      match scanString [] r with
      | .error f => .error f
      | .ok (k, r) =>
        match scanColon r with
        | .error f => .error f
        | .ok r =>
          match d b r with
          | .error f => .error f
          | .ok (a, r) => entries d b steps false (acc.insert (String.ofList k) a) r

def dictionary {α : Type} (d : Decoder α) : Decoder (Dictionary α) := fun b cs =>
  match skipSpace cs, b.depth with
  | '\x7b' :: r, 0 => .error (.atNext .tooDeep ('\x7b' :: r))
  | '\x7b' :: r, depth + 1 => entries d ⟨b.steps, depth⟩ b.steps true .empty r
  | r, _ => .error (mistyped "a map" r)

/-- The name of a variant. -/
def variantName {α : Type} (known : List (String × α)) : Scan α := fun cs =>
  match skipSpace cs with
  | '"' :: r =>
    match scanString [] r with
    | .error f => .error f
    | .ok (s, rest) =>
      match known.lookup (String.ofList s) with
      | some a => .ok (a, rest)
      | none =>
        .error (.consumed (.unknownVariant (String.ofList s) (known.map Prod.fst)) rest)
  | r => .error (mistyped "variant identifier" r)

/-- One of some names, or an object with that name as its only key and null as its value. -/
def variant {α : Type} (known : List (String × α)) : Decoder α := fun b cs =>
  match skipSpace cs, b.depth with
  | [], _ => .error (.atNext .endInValue [])
  | '"' :: r, _ => variantName known ('"' :: r)
  | '\x7b' :: r, 0 => .error (.atNext .tooDeep ('\x7b' :: r))
  | '\x7b' :: r, _ + 1 =>
    match variantName known r with
    | .error f => .error f
    | .ok (a, r) =>
      match scanColon r with
      | .error f => .error f
      | .ok r =>
        match unit b r with
        | .error f => .error f
        | .ok (_, r) =>
          match skipSpace r with
          | '\x7d' :: rest => .ok (a, rest)
          | [] => .error (.consumed .endInObject [])
          | rest => .error (.consumed .valueExpected rest)
  | r, _ => .error (.atNext .valueExpected r)

end Decoder

/-- A field of a record that is being put together in a draft. -/
structure Field (δ : Type) where
  name : String
  /-- Reads the field's value and says how the draft takes it. -/
  read : Decoder (δ → δ)
  given : δ → Bool

/-- A field of a decoded type that the draft takes as `store` says. -/
def Field.of {δ α : Type} (name : String) (d : Decoder α) (given : δ → Bool) (store : α → δ → δ) :
    Field δ :=
  ⟨name, fun b cs => (d b cs).map fun (a, r) => (store a, r), given⟩

/-- How a record is read: its fields, the draft without any of them, and the finished record or
the first field that is missing. -/
structure Shape (δ α : Type) where
  name : String
  fields : List (Field δ)
  start : δ
  finish : δ → Except String α

namespace Shape

variable {δ α : Type}

/-- White space and then the closing brace are passed over, if they are there. -/
def passClosing (cs : List Char) : List Char :=
  match skipSpace cs with
  | '\x7d' :: r => r
  | r => r

/-- The members after an opening brace. A known key may stand there only once. -/
def members (s : Shape δ α) (b : Budget) :
    Nat → Bool → δ → List Char → Except Fault (α × List Char)
  | 0, _, _, cs => .error (.atNext .tooDeep cs)
  | steps + 1, first, draft, cs =>
    match nextKey first cs with
    | .error f => .error f
    | .ok none =>
      let rest := (skipSpace cs).drop 1
      match s.finish draft with
      | .ok a => .ok (a, rest)
      | .error name => .error (.consumed (.missingField name) rest)
    | .ok (some r) =>
      match scanString [] r with
      | .error f => .error f
      | .ok (k, r) =>
        match s.fields.find? fun f => f.name == String.ofList k with
        | none =>
          match scanColon r with
          | .error f => .error f
          | .ok r =>
            match skipValue b.steps r with
            | .error f => .error f
            | .ok r => members s b steps false draft r
        | some field =>
          if field.given draft then
            .error (.consumed (.duplicateField field.name) (passClosing r))
          else
            match scanColon r with
            | .error f => .error f
            | .ok r =>
              match field.read b r with
              | .error f => .error f
              | .ok (store, r) => members s b steps false (store draft) r

def wanted (s : Shape δ α) : String := "struct " ++ s.name

/-- The place of a field among the fields. -/
def indexOf (s : Shape δ α) (name : String) : Nat := s.fields.findIdx fun f => f.name == name

/-- The end of an array of fields; nothing may follow the last field. -/
def closeItems (a : α) (cs : List Char) : Except Fault (α × List Char) :=
  match skipSpace cs with
  | ']' :: r => .ok (a, r)
  | [] => .error (.atNext .endInList [])
  | ',' :: r =>
    match skipSpace r with
    | ']' :: r' => .error (.atNext .trailingComma (']' :: r'))
    | r' => .error (.atNext .trailingCharacters r')
  | r => .error (.atNext .trailingCharacters r)

/-- The fields in their order after an opening bracket. -/
def items (s : Shape δ α) (b : Budget) (first : Bool) (draft : δ) :
    List (Field δ) → List Char → Except Fault (α × List Char)
  | [], cs =>
    match s.finish draft with
    | .ok a => closeItems a cs
    | .error name => .error (.consumed (.missingField name) cs)
  | field :: fields, cs =>
    match nextItem first cs with
    | .error f => .error f
    | .ok none =>
      let rest := (skipSpace cs).drop 1
      match s.finish draft with
      | .ok a => .ok (a, rest)
      | .error name =>
        let shape := s.wanted ++ " with " ++ toString s.fields.length ++ " elements"
        .error (.consumed (.wrongLength (s.indexOf name) shape) rest)
    | .ok (some r) =>
      match field.read b r with
      | .error f => .error f
      | .ok (store, r) => items s b false (store draft) fields r

def decoder (s : Shape δ α) : Decoder α := fun b cs =>
  match skipSpace cs, b.depth with
  | '[' :: r, 0 => .error (.atNext .tooDeep ('[' :: r))
  | '\x7b' :: r, 0 => .error (.atNext .tooDeep ('\x7b' :: r))
  | '[' :: r, depth + 1 => s.items ⟨b.steps, depth⟩ true s.start s.fields r
  | '\x7b' :: r, depth + 1 => s.members ⟨b.steps, depth⟩ b.steps true s.start r
  | r, _ => .error (mistyped s.wanted r)

end Shape

end HandlerHost.Json
