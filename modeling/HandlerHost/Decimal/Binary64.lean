/-!
Finite binary numbers of 53 significant bits, as exact fractions. An operation is done on the
fractions and rounded once, to the nearest number and on a tie to the even significand.
-/
namespace HandlerHost.Decimal

/-- The number `±significand · 2 ^ exponent`. -/
structure Binary64 where
  negative : Bool
  significand : Nat
  exponent : Int
deriving DecidableEq, Inhabited

namespace Binary64

def leastExponent : Int := -1074

def greatestExponent : Int := 971

def zero (negative : Bool) : Binary64 := ⟨negative, 0, leastExponent⟩

def isZero (x : Binary64) : Bool := x.significand == 0

/-- The fraction `num / (den · 2 ^ e)`. -/
def scale (num den : Nat) (e : Int) : Nat × Nat :=
  if 0 ≤ e then (num, den * Nat.pow 2 e.toNat) else (num * Nat.pow 2 (-e).toNat, den)

/-- The quotient rounded to the nearest integer, a half to the even one. -/
def roundHalfEven (num den : Nat) : Nat :=
  let q := num / den
  let twice := 2 * (num % den)
  if den < twice || (twice == den && q % 2 == 1) then q + 1 else q

/-- The exponent at which a quotient has 53 bits before the point, if the format reaches so far. -/
def unitExponent (num den : Nat) : Int :=
  let e : Int := (num.log2 : Int) - den.log2 - 52
  let (a, b) := scale num den e
  max leastExponent (if a / b < Nat.pow 2 52 then e - 1 else e)

/-- The nearest number to `num / den`; none when it is beyond the greatest. -/
def ofRatio (negative : Bool) (num den : Nat) : Option Binary64 :=
  if num == 0 then some (zero negative)
  else
    let e := unitExponent num den
    let (a, b) := scale num den e
    let q := roundHalfEven a b
    let (q, e) := if q == Nat.pow 2 53 then (Nat.pow 2 52, e + 1) else (q, e)
    if greatestExponent < e then none else some ⟨negative, q, e⟩

/-- The magnitude as a fraction. -/
def ratio (x : Binary64) : Nat × Nat :=
  if 0 ≤ x.exponent then (x.significand * Nat.pow 2 x.exponent.toNat, 1)
  else (x.significand, Nat.pow 2 (-x.exponent).toNat)

/-- A number below 2^64, rounded to the format. -/
def ofNat (n : Nat) : Binary64 := (ofRatio false n 1).getD (zero false)

def neg (x : Binary64) : Binary64 := { x with negative := !x.negative }

/-- The power `10 ^ k` of `k ≤ 308`, rounded to the format. -/
def tenPower (k : Nat) : Binary64 := (ofRatio false (Nat.pow 10 k) 1).getD (zero false)

def mul? (x y : Binary64) : Option Binary64 :=
  let (a, b) := x.ratio
  let (c, d) := y.ratio
  ofRatio (x.negative != y.negative) (a * c) (b * d)

/-- The quotient by a number that is not zero. -/
def div? (x y : Binary64) : Option Binary64 :=
  let (a, b) := x.ratio
  let (c, d) := y.ratio
  ofRatio (x.negative != y.negative) (a * d) (b * c)

/-- The natural number that `x` is, if it is one; both zeros are. -/
def toNat? (x : Binary64) : Option Nat :=
  let (a, b) := x.ratio
  if a % b == 0 && (!x.negative || x.isZero) then some (a / b) else none

/-- The magnitude rounded to an integer, a half away from zero. -/
def roundMagnitude (x : Binary64) : Nat :=
  let (a, b) := x.ratio
  (2 * a + b) / (2 * b)

end Binary64

end HandlerHost.Decimal
