import HandlerHost.Decimal.Extended
import HandlerHost.Text.Dictionary

/-! What a configuration is made of before it is understood, and how texts and words are read from
it. -/
namespace HandlerHost.Config

open Text (Entries)
open Decimal (Extended)

inductive Setting
  /-- A place that was made but never filled. -/
  | absent
  | text (s : String)
  | integer (i : Int)
  | real (x : Extended)
  | bool (b : Bool)
  | list (items : List Setting)
  | table (entries : List (String × Setting))
deriving Inhabited

namespace Setting

def entriesOf : Setting → Entries Setting
  | table es => es
  | _ => []

/-- Words that stand for one and for zero. -/
def switchWord? (s : String) : Option UInt64 :=
  let s := s.map Char.toLower
  if ["true", "on", "yes"].contains s then some 1
  else if ["false", "off", "no"].contains s then some 0
  else none

/-- A natural number below 2^64. -/
def toWord? : Setting → Option UInt64
  | integer i => if 0 ≤ i && i < UInt64.size then some (UInt64.ofNat i.toNat) else none
  | real x => some (UInt64.ofNat x.toWord)
  | bool b => some (if b then 1 else 0)
  | text s => (switchWord? s).or (Text.word? s.toList)
  | _ => none

/-- The text of a scalar. -/
def toText? : Setting → Option String
  | text s => some s
  | integer i => some (toString i)
  | real x => some x.text
  | bool b => some (if b then "true" else "false")
  | _ => none

def toTexts? : Setting → Option (List String)
  | list items => items.mapM toText?
  | _ => none

mutual

/-- Tables are merged entry by entry; any other setting replaces the old one. -/
def mergeInto (old : Option Setting) : Setting → Setting
  | table es => table (mergeEntries ((old.map entriesOf).getD []) es)
  | s => s

def mergeEntries (old : Entries Setting) : List (String × Setting) → Entries Setting
  | [] => old
  | (k, s) :: es => mergeEntries (old.insert k (mergeInto (old.find? k) s)) es

end

end Setting

end HandlerHost.Config
