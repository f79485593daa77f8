import HandlerHost.Decimal.Shortest

/-! How the digits of a number are laid out as text. -/
namespace HandlerHost.Decimal

/-- The decisions of a number format. -/
structure Layout where
  /-- Positional notation is used for leading digits of these exponents; always when absent. -/
  positional : Option (Int × Int)
  /-- A whole number keeps a fraction of one zero. -/
  wholeFraction : Bool

/-- Positional from 0.00001 up to sixteen digits, always with a fraction or an exponent. -/
def Layout.json : Layout := ⟨some (-5, 15), true⟩

/-- Positional at every size, a whole number without a fraction. -/
def Layout.plain : Layout := ⟨none, false⟩

namespace Layout

def digits (n : Nat) : List Char := Nat.toDigits 10 n

/-- An exponent with its sign. -/
def exponentText (e : Int) : List Char :=
  (if e < 0 then '-' else '+') :: digits e.natAbs

/-- The point set among the digits; `e` is the exponent of the leading digit. -/
def positionalText (wholeFraction : Bool) (ds : List Char) (e : Int) : List Char :=
  if e < 0 then '0' :: '.' :: List.replicate ((-e).toNat - 1) '0' ++ ds
  else
    let n := e.toNat + 1
    let whole := ds.take n ++ List.replicate (n - ds.length) '0'
    match ds.drop n with
    | [] => if wholeFraction then whole ++ ['.', '0'] else whole
    | fraction => whole ++ '.' :: fraction

/-- One digit, the point, the rest and the exponent. -/
def exponentialText (ds : List Char) (e : Int) : List Char :=
  match ds with
  | [] => []
  | [d] => d :: 'e' :: exponentText e
  | d :: rest => d :: '.' :: rest ++ 'e' :: exponentText e

def magnitude (l : Layout) (x : Binary64) : List Char :=
  if x.isZero then positionalText l.wholeFraction ['0'] 0
  else
    let s := x.shortest
    let ds := digits s.digits
    let e := s.exponent + ds.length - 1
    match l.positional with
    | some (low, high) =>
      if low ≤ e && e ≤ high then positionalText l.wholeFraction ds e else exponentialText ds e
    | none => positionalText l.wholeFraction ds e

/-- The text of a finite number. -/
def text (l : Layout) (x : Binary64) : String :=
  String.ofList (if x.negative then '-' :: l.magnitude x else l.magnitude x)

end Layout

end HandlerHost.Decimal
