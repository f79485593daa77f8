import HandlerHost.Text.Utf8

/-! Backslash escapes in the arguments of output commands, read as bytes. -/
namespace HandlerHost.Shell.Escape

/-- How an octal code is introduced: by a backslash alone, or by a backslash and a zero. -/
inductive Dialect
  | format
  | argument
deriving DecidableEq

inductive Mode
  | plain
  | backslash
  /-- An octal code that may have so many more digits. -/
  | octal (more : Nat) (value : Nat)
  /-- Nothing more is read. -/
  | stopped
deriving DecidableEq

/-- The mode and the bytes read so far, the last one first. -/
structure Reader where
  mode : Mode
  bytes : List UInt8

def octalDigit? (c : Char) : Option Nat :=
  if '0' ≤ c && c ≤ '7' then some (c.toNat - 48) else none

/-- The bytes of letters after a backslash. -/
def letters : List (Char × UInt8) :=
  [('\\', 92), ('a', 7), ('b', 8), ('f', 12), ('n', 10), ('r', 13), ('t', 9), ('v', 11)]

namespace Reader

def put (r : Reader) (bs : List UInt8) : Reader := ⟨.plain, bs.reverseAux r.bytes⟩

def plain (r : Reader) (c : Char) : Reader :=
  if c == '\\' then { r with mode := .backslash } else r.put (String.utf8EncodeChar c)

def afterBackslash (d : Dialect) (r : Reader) (c : Char) : Reader :=
  match octalDigit? c, letters.lookup c with
  | some n, _ =>
    { r with mode := .octal (if d == .argument && n == 0 then 3 else 2) n }
  | none, some b => r.put [b]
  | none, none =>
    if c == 'c' then { r with mode := .stopped } else r.put (92 :: String.utf8EncodeChar c)

def push (d : Dialect) (r : Reader) (c : Char) : Reader :=
  match r.mode with
  | .plain => r.plain c
  | .backslash => r.afterBackslash d c
  | .octal more value =>
    match more, octalDigit? c with
    | more + 1, some n => { r with mode := .octal more (value * 8 + n) }
    | _, _ => (r.put [UInt8.ofNat value]).plain c
  | .stopped => r

def finish (r : Reader) : List UInt8 :=
  match r.mode with
  | .backslash => (r.put [92]).bytes.reverse
  | .octal _ value => (r.put [UInt8.ofNat value]).bytes.reverse
  | _ => r.bytes.reverse

end Reader

/-- The bytes that a text stands for. -/
def read (d : Dialect) (s : String) : List UInt8 :=
  (s.toList.foldl (Reader.push d) ⟨.plain, []⟩).finish

end HandlerHost.Shell.Escape
