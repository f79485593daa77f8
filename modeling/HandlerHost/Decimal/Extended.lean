import HandlerHost.Decimal.Layout
import HandlerHost.Text.Natural

/-! Binary numbers with the infinities and the value that is no number, and their decimal texts. -/
namespace HandlerHost.Decimal

open Text (isDigit digitsValue?)

inductive Extended
  | finite (x : Binary64)
  | infinite (negative : Bool)
  | nan
deriving DecidableEq, Inhabited

namespace Binary64

/-- The number nearest to `digits · 10 ^ exponent`, or none beyond the greatest. Far exponents are
decided without the power. -/
def ofDecimal (negative : Bool) (digits : Nat) (exponent : Int) : Option Binary64 :=
  if digits == 0 then some (zero negative)
  else if 400 < exponent then none
  else if exponent < -400 - digits.log2 then some (zero negative)
  else
    let (a, b) := Scientific.shift digits 1 exponent
    ofRatio negative a b

end Binary64

namespace Extended

/-- A number, or an infinity in place of one that is too great. -/
def ofDecimal (negative : Bool) (digits : Nat) (exponent : Int) : Extended :=
  match Binary64.ofDecimal negative digits exponent with
  | some x => .finite x
  | none => .infinite negative

def text : Extended → String
  | finite x => Layout.plain.text x
  | infinite false => "inf"
  | infinite true => "-inf"
  | nan => "NaN"

/-- Rounded to a word of 64 bits, a half away from zero; what is out of range goes to its end. -/
def toWord : Extended → Nat
  | finite x => if x.negative then 0 else min (UInt64.size - 1) x.roundMagnitude
  | infinite false => UInt64.size - 1
  | infinite true => 0
  | nan => 0

/-- A leading sign and what follows it. -/
def splitSign : List Char → Bool × List Char
  | '-' :: cs => (true, cs)
  | '+' :: cs => (false, cs)
  | cs => (false, cs)

/-- The exponent after its letter, or zero where there is none. -/
def exponentOf? : List Char → Option Int
  | [] => some 0
  | c :: cs =>
    if c == 'e' || c == 'E' then
      let (negative, ds) := splitSign cs
      (digitsValue? ds).map fun n => if negative then -(n : Int) else n
    else none

/-- A decimal numeral: digits with at most one point and at least one digit, then an exponent. -/
def ofNumeral? (negative : Bool) (cs : List Char) : Option Extended := do
  let whole := cs.takeWhile isDigit
  let rest := cs.dropWhile isDigit
  let (fraction, rest) :=
    match rest with
    | '.' :: r => (r.takeWhile isDigit, r.dropWhile isDigit)
    | r => ([], r)
  let digits ← digitsValue? (whole ++ fraction)
  let exponent ← exponentOf? rest
  return ofDecimal negative digits (exponent - fraction.length)

/-- A numeral, or the name of a special value in any case, after an optional sign. -/
def ofText? (s : String) : Option Extended :=
  let (negative, cs) := splitSign s.toList
  match String.ofList (cs.map Char.toLower) with
  | "inf" => some (.infinite negative)
  | "infinity" => some (.infinite negative)
  | "nan" => some .nan
  | _ => ofNumeral? negative cs

end Extended

end HandlerHost.Decimal
