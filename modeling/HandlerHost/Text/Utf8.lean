/-!
Text as bytes. Reading never fails: each longest beginning of a character that goes no further
becomes one replacement character.
-/
namespace HandlerHost.Text.Utf8

/-- The bytes of a text. -/
def encode (s : String) : List UInt8 := s.toList.flatMap String.utf8EncodeChar

/-- Between characters, or within one: then so many bytes are due after the next, which lies in a
range, and the earlier ones have given the code. -/
inductive State
  | ground
  | inside (after : Nat) (low high : UInt8) (code : Nat)
deriving DecidableEq

/-- What a byte is read as: the state after it and the characters that are complete with it. -/
structure Step where
  state : State
  characters : List Char
deriving DecidableEq

/-- Stands for bytes that are no character. -/
def replacement : Char := '\uFFFD'

/-- The first byte of a character. -/
def first (b : UInt8) : Step :=
  if b < 0x80 then ⟨.ground, [Char.ofNat b.toNat]⟩
  else if b < 0xC2 then ⟨.ground, [replacement]⟩
  else if b < 0xE0 then ⟨.inside 0 0x80 0xBF (b.toNat - 0xC0), []⟩
  else if b == 0xE0 then ⟨.inside 1 0xA0 0xBF 0, []⟩
  else if b == 0xED then ⟨.inside 1 0x80 0x9F 0xD, []⟩
  else if b < 0xF0 then ⟨.inside 1 0x80 0xBF (b.toNat - 0xE0), []⟩
  else if b == 0xF0 then ⟨.inside 2 0x90 0xBF 0, []⟩
  else if b < 0xF4 then ⟨.inside 2 0x80 0xBF (b.toNat - 0xF0), []⟩
  else if b == 0xF4 then ⟨.inside 2 0x80 0x8F 4, []⟩
  else ⟨.ground, [replacement]⟩

/-- A byte that cannot go on with a character ends it and is read as a first byte. -/
def State.step : State → UInt8 → Step
  | ground, b => first b
  | inside after low high code, b =>
    if low ≤ b && b ≤ high then
      let code := code * 64 + (b.toNat - 0x80)
      match after with
      | 0 => ⟨.ground, [Char.ofNat code]⟩
      | after + 1 => ⟨.inside after 0x80 0xBF code, []⟩
    else ⟨(first b).state, replacement :: (first b).characters⟩

/-- The characters due when the bytes end. -/
def State.rest : State → List Char
  | ground => []
  | inside .. => [replacement]

/-- The state after some bytes and the characters read from them, the last one first. -/
structure Reader where
  state : State
  characters : List Char

namespace Reader

def start : Reader := ⟨.ground, []⟩

def push (r : Reader) (b : UInt8) : Reader :=
  match r.state.step b with
  | ⟨state, cs⟩ => ⟨state, cs.reverseAux r.characters⟩

def finish (r : Reader) : List Char := (r.state.rest.reverseAux r.characters).reverse

end Reader

/-- The text of some bytes. -/
def decode (bytes : List UInt8) : String := String.ofList (bytes.foldl Reader.push .start).finish

end HandlerHost.Text.Utf8
