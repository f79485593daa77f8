import HandlerHost.Config.Setting

/-!
Keys that lead into nested settings: a name, then any number of `.name` and `[index]`. A negative
index counts from the end.
-/
namespace HandlerHost.Config

open Text (Entries isDigit)

inductive Segment
  | name (k : String)
  | index (i : Int)
deriving DecidableEq

namespace Segment

def isNameChar (c : Char) : Bool :=
  ('a' ≤ c && c ≤ 'z') || ('A' ≤ c && c ≤ 'Z') || isDigit c || c == '_' || c == '-'

def isGap (c : Char) : Bool := c == ' ' || c == '\t'

/-- An index in brackets, with blanks around it; greater ones than a word holds are none. -/
def indexOf? (cs : List Char) : Option Int := do
  let cs := ((cs.dropWhile isGap).reverse.dropWhile isGap).reverse
  let (negative, ds) : Bool × List Char :=
    match cs with
    | '-' :: r => (true, r)
    | r => (false, r)
  let n ← Text.digitsValue? ds
  if n ≤ Int64.maxValue.toInt then some (if negative then -(n : Int) else n) else none

/-- The segments after the first name. -/
def rest? : Nat → List Char → Option (List Segment)
  | _, [] => some []
  | 0, _ :: _ => none
  | fuel + 1, '.' :: cs =>
    let k := cs.takeWhile isNameChar
    if k.isEmpty then none
    else (rest? fuel (cs.dropWhile isNameChar)).map (.name (String.ofList k) :: ·)
  | fuel + 1, '[' :: cs =>
    match cs.dropWhile (· != ']') with
    | _ :: r => do
      let i ← indexOf? (cs.takeWhile (· != ']'))
      (rest? fuel r).map (.index i :: ·)
    | [] => none
  | _ + 1, _ :: _ => none

end Segment

/-- The segments of a key; a key that is no path is one name as a whole. -/
def segments (key : String) : List Segment :=
  let cs := key.toList
  let k := cs.takeWhile Segment.isNameChar
  let path :=
    if k.isEmpty then none
    else (Segment.rest? cs.length (cs.dropWhile Segment.isNameChar)).map
      (.name (String.ofList k) :: ·)
  path.getD [.name key]

namespace Setting

/-- The items with room for an index, and its place among them. -/
def reserve (items : List Setting) (i : Int) : List Setting × Nat :=
  let n := items.length
  if 0 ≤ i then (items ++ List.replicate (i.toNat + 1 - n) .absent, i.toNat)
  else if i.natAbs ≤ n then (items, n - i.natAbs)
  else (List.replicate (i.natAbs - n) .absent ++ items, 0)

/-- Merges a setting in where the segments lead; what is no table or list on the way there is
replaced by one. -/
def putAt (new : Setting) : List Segment → Option Setting → Setting
  | [], old => mergeInto old new
  | .name k :: path, old =>
    let es := (old.map entriesOf).getD []
    .table (Entries.insert k (putAt new path (Entries.find? k es)) es)
  | .index i :: path, old =>
    let items :=
      match old with
      | some (.list items) => items
      | _ => []
    let (items, n) := reserve items i
    .list (items.set n (putAt new path items[n]?))

/-- Merges a layer of settings into those below it. -/
def overlay (base : Setting) (layer : List (String × Setting)) : Setting :=
  layer.foldl (fun s e => putAt e.2 (segments e.1) (some s)) base

end Setting

end HandlerHost.Config
