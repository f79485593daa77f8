import HandlerHost.Config.Setting

/-! The scalars of a TOML document that are written without quotes. -/
namespace HandlerHost.Toml

open Text (isDigit digitValue digitsValue?)
open Decimal (Extended)
open Config (Setting)

/-- Digits, with single underscores between them left out. -/
def ungroup? (isDigit : Char → Bool) : List Char → Option (List Char)
  | [] => none
  | [c] => if isDigit c then some [c] else none
  | c :: '_' :: cs => if isDigit c then (ungroup? isDigit cs).map (c :: ·) else none
  | c :: cs => if isDigit c then (ungroup? isDigit cs).map (c :: ·) else none

def radixValue (c : Char) : Nat :=
  if isDigit c then c.toNat - 48 else if 'a' ≤ c then c.toNat - 87 else c.toNat - 55

/-- A natural number in another radix. -/
def radixNumber? (radix : Nat) (cs : List Char) : Option Nat :=
  let isDigit' (c : Char) : Bool :=
    (isDigit c || ('a' ≤ c && c ≤ 'f') || ('A' ≤ c && c ≤ 'F')) && radixValue c < radix
  (ungroup? isDigit' cs).map fun ds => ds.foldl (fun n c => n * radix + radixValue c) 0

/-- Decimal digits that begin with a zero only if there is no other. -/
def wholeDigits? (cs : List Char) : Option (List Char) := do
  let ds ← ungroup? isDigit cs
  match ds with
  | '0' :: _ :: _ => none
  | ds => some ds

def integer? (cs : List Char) : Option Int := do
  let n : Int ←
    match cs with
    | '0' :: 'x' :: r => (radixNumber? 16 r).map Int.ofNat
    | '0' :: 'o' :: r => (radixNumber? 8 r).map Int.ofNat
    | '0' :: 'b' :: r => (radixNumber? 2 r).map Int.ofNat
    | cs =>
      let (negative, r) := Extended.splitSign cs
      (wholeDigits? r).map fun ds =>
        let n : Nat := ds.foldl (fun n c => n * 10 + digitValue c) 0
        if negative then -(n : Int) else n
  if Int64.minValue.toInt ≤ n && n ≤ Int64.maxValue.toInt then some n else none

def isGrouped (c : Char) : Bool := isDigit c || c == '_'

/-- A number with a point, an exponent or both; the point stands between digits. -/
def real? (cs : List Char) : Option Extended := do
  let (negative, r) := Extended.splitSign cs
  match r with
  | ['i', 'n', 'f'] => some (.infinite negative)
  | ['n', 'a', 'n'] => some .nan
  | r =>
    let whole ← wholeDigits? (r.takeWhile isGrouped)
    let rest := r.dropWhile isGrouped
    let (fraction, rest) : List Char × List Char ←
      match rest with
      | '.' :: r => do some (← ungroup? isDigit (r.takeWhile isGrouped), r.dropWhile isGrouped)
      | r => some ([], r)
    let exponent : Int ←
      match rest with
      | [] => if fraction.isEmpty then none else some 0
      | c :: r =>
        if c == 'e' || c == 'E' then
          let (down, ds) := Extended.splitSign r
          (ungroup? isDigit ds).bind fun ds =>
            (digitsValue? ds).map fun n => if down then -(n : Int) else (n : Int)
        else none
    let digits ← digitsValue? (whole ++ fraction)
    match Extended.ofDecimal negative digits (exponent - fraction.length) with
    | .infinite _ => none
    | x => some x

/-- A number of `n` digits at the start of a text. -/
def fixedNumber? (n : Nat) (cs : List Char) : Option (Nat × List Char) := do
  if cs.length < n then none
  else some (← digitsValue? (cs.take n), cs.drop n)

def expectChar? (c : Char) : List Char → Option (List Char)
  | d :: r => if c == d then some r else none
  | [] => none

def daysOfMonth (year month : Nat) : Nat :=
  if month == 2 then
    if (year % 4 == 0 && year % 100 != 0) || year % 400 == 0 then 29 else 28
  else if [4, 6, 9, 11].contains month then 30
  else 31

/-- A number padded with zeros to `n` digits. -/
def padded (n : Nat) (k : Nat) : String :=
  let ds := Nat.toDigits 10 k
  String.ofList (List.replicate (n - ds.length) '0' ++ ds)

/-- A date, written again, and what follows it. -/
def date? (cs : List Char) : Option (String × List Char) := do
  let (year, r) ← fixedNumber? 4 cs
  let (month, r) ← fixedNumber? 2 (← expectChar? '-' r)
  let (day, r) ← fixedNumber? 2 (← expectChar? '-' r)
  if month < 1 || 12 < month || day < 1 || daysOfMonth year month < day then none
  else some (padded 4 year ++ "-" ++ padded 2 month ++ "-" ++ padded 2 day, r)

/-- The first nine digits of a fraction of a second. Of trailing zeros only a first digit stays. -/
def fractionText (ds : List Char) : String :=
  match ((ds.take 9).reverse.dropWhile (· == '0')).reverse with
  | [] => ".0"
  | ds => String.ofList ('.' :: ds)

/-- The seconds of a time, perhaps with a fraction, written again, and what follows them. -/
def seconds? (cs : List Char) : Option (String × List Char) := do
  let (second, r) ← fixedNumber? 2 cs
  if 60 < second then none
  else
    let text := ":" ++ padded 2 second
    match r with
    | '.' :: r =>
      let ds := r.takeWhile isDigit
      if ds.isEmpty then none else some (text ++ fractionText ds, r.dropWhile isDigit)
    | r => some (text, r)

/-- A time, written again, and what follows it. The seconds may be left out. -/
def time? (cs : List Char) : Option (String × List Char) := do
  let (hour, r) ← fixedNumber? 2 cs
  let (minute, r) ← fixedNumber? 2 (← expectChar? ':' r)
  if 23 < hour || 59 < minute then none
  else
    let text := padded 2 hour ++ ":" ++ padded 2 minute
    match r with
    | ':' :: r => (seconds? r).map fun (seconds, r) => (text ++ seconds, r)
    | r => some (text, r)

/-- An offset from universal time, written again. -/
def offset? : List Char → Option String
  | [] => some ""
  | ['Z'] => some "Z"
  | ['z'] => some "Z"
  | c :: r => do
    if c != '+' && c != '-' then none
    else
      let (hour, r) ← fixedNumber? 2 r
      let (minute, r) ← fixedNumber? 2 (← expectChar? ':' r)
      if 23 < hour || 59 < minute || !r.isEmpty then none
      else
        let sign := if c == '-' && hour + minute != 0 then "-" else "+"
        some (sign ++ padded 2 hour ++ ":" ++ padded 2 minute)

/-- A date, a time or both, as text. -/
def dateTime? (cs : List Char) : Option String :=
  match date? cs with
  | some (date, []) => some date
  | some (date, c :: r) =>
    if c == 'T' || c == 't' || c == ' ' then do
      let (time, r) ← time? r
      let offset ← offset? r
      some (date ++ "T" ++ time ++ offset)
    else none
  | none =>
    match time? cs with
    | some (time, []) => some time
    | _ => none

/-- A scalar without quotes. -/
def scalar? (cs : List Char) : Option Setting :=
  match String.ofList cs with
  | "true" => some (.bool true)
  | "false" => some (.bool false)
  | _ =>
    match integer? cs, real? cs, dateTime? cs with
    | some i, _, _ => some (.integer i)
    | none, some x, _ => some (.real x)
    | none, none, some s => some (.text s)
    | none, none, none => none

end HandlerHost.Toml
