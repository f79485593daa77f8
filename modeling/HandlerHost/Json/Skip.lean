import HandlerHost.Json.Scan

/-!
Passing over a JSON value that nobody asked for. It must be well formed as text, but its numbers
may be of any size, its surrogates unpaired and its nesting of any depth.
-/
namespace HandlerHost.Json

open Text (isDigit)

/-- Passes over the rest of a string after the opening quote. -/
def skipString : List Char → Except Fault (List Char)
  | [] => .error (.consumed .endInString [])
  | '"' :: r => .ok r
  | '\\' :: 'u' :: a :: b :: c :: d :: r =>
    if (hexQuad? a b c d).isSome then skipString r else .error (badQuad (a :: b :: c :: d :: r))
  | '\\' :: 'u' :: r => .error (badQuad r)
  | ['\\'] => .error (.consumed .endInString [])
  | '\\' :: c :: r =>
    if (escaped? c).isSome then skipString r else .error (.after 1 .invalidEscape (c :: r))
  | c :: r =>
    if c.toNat < 0x20 then .error (.consumed .controlCharacter (c :: r)) else skipString r

/-- Passes over what follows the letter of an exponent. -/
def skipExponent (cs : List Char) : Except Fault (List Char) :=
  let cs :=
    match cs with
    | '+' :: r => r
    | '-' :: r => r
    | cs => cs
  match cs with
  | [] => .error (.consumed .invalidNumber [])
  | c :: r =>
    if isDigit c then .ok (r.dropWhile isDigit) else .error (.after 1 .invalidNumber (c :: r))

def skipScale : List Char → Except Fault (List Char)
  | 'e' :: r => skipExponent r
  | 'E' :: r => skipExponent r
  | rest => .ok rest

/-- Passes over what follows the whole digits of a numeral. -/
def skipTail : List Char → Except Fault (List Char)
  | '.' :: r =>
    match r with
    | c :: r' => if isDigit c then skipScale (r'.dropWhile isDigit) else .error (.atNext .invalidNumber r)
    | [] => .error (.atNext .invalidNumber [])
  | rest => skipScale rest

/-- Passes over a numeral after its sign. -/
def skipNumber : List Char → Except Fault (List Char)
  | [] => .error (.consumed .invalidNumber [])
  | '0' :: r =>
    match r with
    | c :: _ => if isDigit c then .error (.atNext .invalidNumber r) else skipTail r
    | [] => .ok []
  | c :: r =>
    if isDigit c then skipTail (r.dropWhile isDigit) else .error (.after 1 .invalidNumber (c :: r))

/-- Passes over a key and its colon. -/
def skipKey (cs : List Char) : Except Fault (List Char) :=
  match skipSpace cs with
  | '"' :: r => do scanColon (← skipString r)
  | [] => .error (.atNext .endInObject [])
  | r => .error (.atNext .keyExpected r)

inductive Bracket
  | square
  | curly
deriving DecidableEq

namespace Bracket

def closing : Bracket → Char
  | square => ']'
  | curly => '\x7d'

def endFault : Bracket → Fault
  | square => .atNext .endInList []
  | curly => .atNext .endInObject []

def separatorFault (rest : List Char) : Bracket → Fault
  | square => .atNext .listEndExpected rest
  | curly => .atNext .objectEndExpected rest

end Bracket

mutual

/-- Passes over a value inside the given open brackets and over all that closes them. -/
def skipFrom (steps : Nat) (stack : List Bracket) (cs : List Char) : Except Fault (List Char) :=
  match steps with
  | 0 => .error (.atNext .tooDeep cs)
  | steps + 1 =>
    match skipSpace cs with
    | [] => .error (.atNext .endInValue [])
    | 'n' :: r => do skipClosing steps stack (← scanWord ['u', 'l', 'l'] r)
    | 't' :: r => do skipClosing steps stack (← scanWord ['r', 'u', 'e'] r)
    | 'f' :: r => do skipClosing steps stack (← scanWord ['a', 'l', 's', 'e'] r)
    | '-' :: r => do skipClosing steps stack (← skipNumber r)
    | '"' :: r => do skipClosing steps stack (← skipString r)
    | '[' :: r => skipOpened steps .square stack r
    | '\x7b' :: r => skipOpened steps .curly stack r
    | c :: r =>
      if isDigit c then do skipClosing steps stack (← skipNumber (c :: r))
      else .error (.atNext .valueExpected (c :: r))

/-- Goes on after an opening bracket. -/
def skipOpened (steps : Nat) (b : Bracket) (stack : List Bracket) (cs : List Char) :
    Except Fault (List Char) :=
  match steps with
  | 0 => .error (.atNext .tooDeep cs)
  | steps + 1 =>
    match skipSpace cs with
    | [] => .error b.endFault
    | c :: r =>
      if c == b.closing then skipClosing steps stack r
      else
        match b with
        | .square => skipFrom steps (b :: stack) (c :: r)
        | .curly => do skipFrom steps (b :: stack) (← skipKey (c :: r))

/-- Goes on after a value: at a comma with the next one, at a bracket's end outside of it. -/
def skipClosing (steps : Nat) (stack : List Bracket) (cs : List Char) :
    Except Fault (List Char) :=
  match steps with
  | 0 => .error (.atNext .tooDeep cs)
  | steps + 1 =>
    match stack with
    | [] => .ok cs
    | b :: stack =>
      match skipSpace cs with
      | [] => .error b.endFault
      | c :: r =>
        if c == ',' then
          match b with
          | .square => skipFrom steps (b :: stack) r
          | .curly => do skipFrom steps (b :: stack) (← skipKey r)
        else if c == b.closing then skipClosing steps stack r
        else .error (b.separatorFault (c :: r))

end

/-- Passes over one value. -/
def skipValue (steps : Nat) (cs : List Char) : Except Fault (List Char) :=
  skipFrom (2 * steps + 2) [] cs

end HandlerHost.Json
