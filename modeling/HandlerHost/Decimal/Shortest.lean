import HandlerHost.Decimal.Binary64

/-!
The fewest decimal digits that read back as a given binary number. A grid of `n` digits has two
points beside the number; the first grid with a point in the rounding interval wins, and of two
such points the nearer.
-/
namespace HandlerHost.Decimal

/-- The positive decimal `digits · 10 ^ exponent`. -/
structure Scientific where
  digits : Nat
  exponent : Int
deriving DecidableEq, Inhabited

namespace Scientific

/-- The fraction `num / den` multiplied by `10 ^ k`. -/
def shift (num den : Nat) (k : Int) : Nat × Nat :=
  if 0 ≤ k then (num * Nat.pow 10 k.toNat, den) else (num, den * Nat.pow 10 (-k).toNat)

def ratio (d : Scientific) : Nat × Nat := shift d.digits 1 d.exponent

/-- The exponent of the leading digit of a positive fraction. -/
def leading (num den : Nat) : Int :=
  let estimate : Int := ((num.log2 : Int) - den.log2) * 30103 / 100000
  let atLeast (k : Int) : Bool := let (a, b) := shift num den (-k); b ≤ a
  if atLeast (estimate + 1) then
    if atLeast (estimate + 2) then estimate + 2 else estimate + 1
  else if atLeast estimate then estimate
  else estimate - 1

/-- Trailing zeros of the digits moved into the exponent, `fuel` of them at most. -/
def trimZeros : Nat → Scientific → Scientific
  | 0, d => d
  | fuel + 1, d =>
    if d.digits % 10 == 0 && d.digits != 0 then trimZeros fuel ⟨d.digits / 10, d.exponent + 1⟩ else d

end Scientific

namespace Binary64

/-- Whether `num / den` rounds to the positive number `x`: it lies between the midpoints to the
neighbours, which themselves belong to an even significand. -/
def roundsTo (x : Binary64) (num den : Nat) : Bool :=
  let (a, b) := scale (4 * num) den x.exponent
  let m := x.significand
  let low := if m == Nat.pow 2 52 && leastExponent < x.exponent then 4 * m - 1 else 4 * m - 2
  let high := 4 * m + 2
  if m % 2 == 0 then low * b ≤ a && a ≤ high * b else low * b < a && a < high * b

/-- The point of the grid of `n` digits that reads back as `x` and is nearest to it. -/
def onGrid? (x : Binary64) (top : Int) (n : Nat) : Option Scientific :=
  let unit := top - (n : Int) + 1
  let (num, den) := x.ratio
  let (a, b) := Scientific.shift num den (-unit)
  let below : Scientific := ⟨a / b, unit⟩
  let above : Scientific := ⟨a / b + 1, unit⟩
  let fits (d : Scientific) : Bool := let (p, q) := d.ratio; x.roundsTo p q
  let twice := 2 * (a % b)
  let belowNearer := twice < b || (twice == b && below.digits % 2 == 0)
  if belowNearer then
    if fits below then some below else if fits above then some above else none
  else if fits above then some above else if fits below then some below else none

/-- The shortest decimal of a positive number. Seventeen digits always suffice. -/
def shortest (x : Binary64) : Scientific :=
  let (num, den) := x.ratio
  let top := Scientific.leading num den
  let grids := (List.range 17).map (· + 1)
  ((grids.findSome? (x.onGrid? top)).getD ⟨0, 0⟩).trimZeros 17

end Binary64

end HandlerHost.Decimal
