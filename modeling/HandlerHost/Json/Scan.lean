import HandlerHost.Json.Fault
import HandlerHost.Text.Natural

/-!
Reading the tokens of a JSON text: blanks, words, strings and numerals. Each reader takes what is
left of the text and gives what it read with the new rest.
-/
namespace HandlerHost.Json

open Text (isDigit digitValue)

/-- A reader of one construct. -/
abbrev Scan (α : Type) := List Char → Except Fault (α × List Char)

def isSpace (c : Char) : Bool := c == ' ' || c == '\t' || c == '\n' || c == '\r'

def skipSpace (cs : List Char) : List Char := cs.dropWhile isSpace

/-- The rest of a word whose first letter has been read. -/
def scanWord : List Char → List Char → Except Fault (List Char)
  | [], cs => .ok cs
  | _ :: _, [] => .error (.consumed .endInValue [])
  | w :: ws, c :: cs =>
    if w == c then scanWord ws cs else .error (.after 1 .wordExpected (c :: cs))

def hexValue? (c : Char) : Option Nat :=
  if '0' ≤ c && c ≤ '9' then some (c.toNat - 48)
  else if 'a' ≤ c && c ≤ 'f' then some (c.toNat - 87)
  else if 'A' ≤ c && c ≤ 'F' then some (c.toNat - 55)
  else none

/-- The number that four hexadecimal digits denote. -/
def hexQuad? (a b c d : Char) : Option Nat := do
  let a ← hexValue? a
  let b ← hexValue? b
  let c ← hexValue? c
  let d ← hexValue? d
  return ((a * 16 + b) * 16 + c) * 16 + d

/-- The character that a letter after a backslash stands for. -/
def escaped? : Char → Option Char
  | '"' => some '"'
  | '\\' => some '\\'
  | '/' => some '/'
  | 'b' => some '\x08'
  | 'f' => some '\x0c'
  | 'n' => some '\n'
  | 'r' => some '\r'
  | 't' => some '\t'
  | _ => none

/-- Four bytes that are no hexadecimal number, or the end before them. -/
def badQuad (rest : List Char) : Fault :=
  if byteCount rest < 4 then .consumed .endInString [] else .after 4 .invalidEscape rest

def isHighSurrogate (n : Nat) : Bool := 0xD800 ≤ n && n < 0xDC00

def isLowSurrogate (n : Nat) : Bool := 0xDC00 ≤ n && n < 0xE000

/-- The character beyond U+FFFF that two surrogates denote. -/
def joinSurrogates (high low : Nat) : Char :=
  Char.ofNat (0x10000 + (high - 0xD800) * 0x400 + (low - 0xDC00))

/-- The rest of a string after the opening quote; `acc` holds its characters in reverse. -/
def scanString (acc : List Char) : Scan (List Char)
  | [] => .error (.consumed .endInString [])
  | '"' :: r => .ok (acc.reverse, r)
  | '\\' :: 'u' :: a :: b :: c :: d :: r =>
    match hexQuad? a b c d with
    | none => .error (badQuad (a :: b :: c :: d :: r))
    | some n =>
      if isLowSurrogate n then .error (.consumed .loneSurrogate r)
      else if isHighSurrogate n then
        match r with
        | [] => .error (.consumed .endInString [])
        | ['\\'] => .error (.consumed .endInString [])
        | '\\' :: 'u' :: e :: f :: g :: h :: r' =>
          match hexQuad? e f g h with
          | none => .error (badQuad (e :: f :: g :: h :: r'))
          | some m =>
            if isLowSurrogate m then scanString (joinSurrogates n m :: acc) r'
            else .error (.consumed .loneSurrogate r')
        | '\\' :: 'u' :: r' => .error (badQuad r')
        | '\\' :: r' => .error (.after 1 .unpairedSurrogate r')
        | r' => .error (.after 1 .unpairedSurrogate r')
      else scanString (Char.ofNat n :: acc) r
  | '\\' :: 'u' :: r => .error (badQuad r)
  | ['\\'] => .error (.consumed .endInString [])
  | '\\' :: c :: r =>
    match escaped? c with
    | some x => scanString (x :: acc) r
    | none => .error (.after 1 .invalidEscape (c :: r))
  | c :: r =>
    if c.toNat < 0x20 then .error (.consumed .controlCharacter r) else scanString (c :: acc) r

/-- Digits are taken as long as their number stays below 2^64; `count` tells how many. -/
def scanSignificand (value count : Nat) : List Char → Nat × Nat × List Char
  | [] => (value, count, [])
  | c :: r =>
    if isDigit c && value * 10 + digitValue c < UInt64.size then
      scanSignificand (value * 10 + digitValue c) (count + 1) r
    else (value, count, c :: r)

/-- The quotients of `x` by 10^308 until the exponent is at least -308 or the number is zero. -/
def lowerExponent (x : Decimal.Binary64) : Nat → Int → Decimal.Binary64 × Int
  | 0, e => (x, e)
  | fuel + 1, e =>
    if -308 ≤ e || x.isZero then (x, e)
    else lowerExponent ((x.div? (.tenPower 308)).getD x) fuel (e + 308)

/-- `significand · 10 ^ exponent` in binary: the significand is rounded, then the product or the
quotient by the power. None when it is too great. -/
def Number.ofParts? (negative : Bool) (significand : Nat) (exponent : Int) :
    Option Decimal.Binary64 :=
  let signed (x : Decimal.Binary64) : Decimal.Binary64 := if negative then x.neg else x
  if significand == 0 then some (.zero negative)
  else if 308 < exponent then none
  else if 0 ≤ exponent then
    ((Decimal.Binary64.ofNat significand).mul? (.tenPower exponent.toNat)).map signed
  else
    let (x, e) := lowerExponent (.ofNat significand) 4 exponent
    if x.isZero then some (.zero negative)
    else (x.div? (.tenPower e.natAbs)).map signed

/-- The digits of an exponent; none when they leave a word of 31 bits, with the rest after the
digit that did so. -/
def scanExponentDigits (value : Nat) : List Char → Option Nat × List Char
  | [] => (some value, [])
  | c :: r =>
    if isDigit c then
      if value * 10 + digitValue c ≤ Int32.maxValue.toInt then
        scanExponentDigits (value * 10 + digitValue c) r
      else (none, r)
    else (some value, c :: r)

/-- The number built of the parts read, or a fault after them. -/
def finishReal (negative : Bool) (significand : Nat) (exponent : Int) : Scan Number := fun rest =>
  match Number.ofParts? negative significand exponent with
  | some x => .ok (.real x, rest)
  | none => .error (.consumed .numberOutOfRange rest)

/-- What follows the letter of an exponent. -/
def scanExponent (negative : Bool) (significand : Nat) (start : Int) : Scan Number := fun cs =>
  let (down, cs) : Bool × List Char :=
    match cs with
    | '+' :: r => (false, r)
    | '-' :: r => (true, r)
    | cs => (false, cs)
  match cs with
  | [] => .error (.consumed .endInValue [])
  | c :: r =>
    if isDigit c then
      match scanExponentDigits (digitValue c) r with
      | (some e, rest) =>
        finishReal negative significand (if down then start - e else start + e) rest
      | (none, rest) =>
        if significand != 0 && !down then .error (.consumed .numberOutOfRange rest)
        else .ok (.real (.zero negative), rest.dropWhile isDigit)
    else .error (.after 1 .invalidNumber (c :: r))

/-- An exponent, if one follows. -/
def scanScale (negative : Bool) (significand : Nat) (exponent : Int) : Scan Number
  | 'e' :: r => scanExponent negative significand exponent r
  | 'E' :: r => scanExponent negative significand exponent r
  | rest => finishReal negative significand exponent rest

/-- What follows the point. Digits that would not fit in 64 bits are ignored. -/
def scanFraction (negative : Bool) (significand : Nat) (exponent : Int) : Scan Number := fun cs =>
  let (value, count, rest) := scanSignificand significand 0 cs
  match rest with
  | c :: _ =>
    if isDigit c then scanScale negative value (exponent - count) (rest.dropWhile isDigit)
    else if count == 0 then .error (.atNext .invalidNumber rest)
    else scanScale negative value (exponent - count) rest
  | [] =>
    if count == 0 then .error (.atNext .endInValue [])
    else scanScale negative value (exponent - count) []

/-- A numeral without a point or an exponent: an integer if 64 bits hold it; minus zero and what
lies below are binary fractions. -/
def wholeNumber (negative : Bool) (n : Nat) : Number :=
  if !negative then .integer n
  else if n != 0 && Int64.minValue.toInt ≤ -(n : Int) then .integer (-(n : Int))
  else .real (Decimal.Binary64.ofNat n).neg

/-- What follows the whole digits of a numeral. -/
def scanTail (negative : Bool) (significand : Nat) : Scan Number
  | '.' :: r => scanFraction negative significand 0 r
  | 'e' :: r => scanExponent negative significand 0 r
  | 'E' :: r => scanExponent negative significand 0 r
  | rest => .ok (wholeNumber negative significand, rest)

/-- Whole digits beyond 64 bits only raise the exponent. -/
def scanLongTail (negative : Bool) (significand : Nat) : Scan Number := fun cs =>
  let extra := (cs.takeWhile isDigit).length
  match cs.dropWhile isDigit with
  | '.' :: r => scanFraction negative significand extra r
  | rest => scanScale negative significand extra rest

/-- A numeral after its sign. -/
def scanNumber (negative : Bool) : Scan Number
  | [] => .error (.consumed .endInValue [])
  | '0' :: r =>
    match r with
    | c :: _ => if isDigit c then .error (.atNext .invalidNumber r) else scanTail negative 0 r
    | [] => scanTail negative 0 []
  | c :: r =>
    if isDigit c then
      let (value, _, rest) := scanSignificand (digitValue c) 1 r
      match rest with
      | d :: _ => if isDigit d then scanLongTail negative value rest else scanTail negative value rest
      | [] => scanTail negative value []
    else .error (.after 1 .invalidNumber (c :: r))

/-- The place of the next item of a list, or none at its closing bracket, which is not consumed. -/
def nextItem (first : Bool) (cs : List Char) : Except Fault (Option (List Char)) :=
  match skipSpace cs with
  | [] => .error (.atNext .endInList [])
  | ']' :: _ => .ok none
  | ',' :: r =>
    if first then .ok (some (',' :: r))
    else
      match skipSpace r with
      | [] => .error (.atNext .endInValue [])
      | ']' :: r' => .error (.atNext .trailingComma (']' :: r'))
      | r' => .ok (some r')
  | r => if first then .ok (some r) else .error (.atNext .listEndExpected r)

/-- What follows the opening quote of the next key of an object, or none at its closing brace,
which is not consumed. -/
def nextKey (first : Bool) (cs : List Char) : Except Fault (Option (List Char)) :=
  match skipSpace cs with
  | [] => .error (.atNext .endInObject [])
  | '\x7d' :: _ => .ok none
  | ',' :: r =>
    if first then .error (.atNext .keyExpected (',' :: r))
    else
      match skipSpace r with
      | [] => .error (.atNext .endInValue [])
      | '"' :: r' => .ok (some r')
      | '\x7d' :: r' => .error (.atNext .trailingComma ('\x7d' :: r'))
      | r' => .error (.atNext .keyExpected r')
  | '"' :: r =>
    if first then .ok (some r) else .error (.atNext .objectEndExpected ('"' :: r))
  | r => .error (.atNext (if first then .keyExpected else .objectEndExpected) r)

/-- The colon between a key and its value. -/
def scanColon (cs : List Char) : Except Fault (List Char) :=
  match skipSpace cs with
  | ':' :: r => .ok r
  | [] => .error (.atNext .endInObject [])
  | r => .error (.atNext .colonExpected r)

/-- Only blanks may follow a document. -/
def scanEnd (cs : List Char) : Except Fault Unit :=
  match skipSpace cs with
  | [] => .ok ()
  | r => .error (.atNext .trailingCharacters r)

end HandlerHost.Json
