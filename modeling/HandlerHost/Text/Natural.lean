/-! Natural numbers in decimal digits, of any size or in a word of 64 bits. -/
namespace HandlerHost.Text

/-- The digits of ASCII. -/
def isDigit (c : Char) : Bool := '0' ≤ c && c ≤ '9'

def digitValue (c : Char) : Nat := c.toNat - 48

/-- The number that a run of digits denotes; an empty run denotes none. -/
def digitsValue? (cs : List Char) : Option Nat :=
  if cs.isEmpty || !cs.all isDigit then none
  else some (cs.foldl (fun n c => n * 10 + digitValue c) 0)

/-- The number that digits after those of `n` denote, as long as a word of 64 bits holds it. -/
def wordAfter? (n : UInt64) : List Char → Option UInt64
  | [] => some n
  | c :: cs =>
    if isDigit c && n.toNat * 10 + digitValue c < UInt64.size then
      wordAfter? (n * 10 + UInt64.ofNat (digitValue c)) cs
    else none

/-- A word of 64 bits in digits; an empty run denotes none. -/
def wordDigits? (cs : List Char) : Option UInt64 := if cs.isEmpty then none else wordAfter? 0 cs

/-- Digits with an optional plus sign before them. -/
def word? : List Char → Option UInt64
  | '+' :: cs => wordDigits? cs
  | cs => wordDigits? cs

end HandlerHost.Text
