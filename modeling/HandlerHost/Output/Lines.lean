import HandlerHost.Text.Utf8

/-!
Lines of a byte stream. A line ends at a newline or with the stream, and only its first bytes up to
a limit are kept. How the bytes arrive makes no difference: the reader takes them one by one.
-/
namespace HandlerHost.Output

/-- The longest line that is kept whole, in bytes. -/
def maxLineBytes : Nat := 1048576

def newline : UInt8 := 10

def carriageReturn : UInt8 := 13

/-- A line that has not ended: its kept bytes, the last one first, and how many it has. -/
structure OpenLine where
  kept : List UInt8
  length : Nat
deriving DecidableEq

/-- A line that has ended: what is kept of it, how many bytes it took from the stream and whether
it was cut. -/
structure RawLine where
  content : List UInt8
  consumed : Nat
  truncated : Bool
deriving DecidableEq

namespace OpenLine

def start : OpenLine := ⟨[], 0⟩

/-- A byte of the line. -/
def add (max : Nat) (l : OpenLine) (b : UInt8) : OpenLine :=
  ⟨if l.length < max then b :: l.kept else l.kept, l.length + 1⟩

/-- The line ends after so many bytes that are not its own. -/
def close (max : Nat) (l : OpenLine) (terminator : Nat) : RawLine :=
  ⟨l.kept.reverse, l.length + terminator, decide (max < l.length)⟩

/-- What is left when the stream ends. Nothing is left after a newline. -/
def rest (max : Nat) (l : OpenLine) : Option RawLine :=
  if l.length = 0 then none else some (l.close max 0)

end OpenLine

/-- The open line of a stream and the lines before it, the last one first. -/
structure LineReader where
  current : OpenLine
  lines : List RawLine

namespace LineReader

def start : LineReader := ⟨.start, []⟩

def push (max : Nat) (r : LineReader) (b : UInt8) : LineReader :=
  if b == newline then ⟨.start, r.current.close max 1 :: r.lines⟩
  else { r with current := r.current.add max b }

end LineReader

/-- The lines that end in a chunk and the line that is open after it. -/
def OpenLine.feed (max : Nat) (l : OpenLine) (chunk : List UInt8) : List RawLine × OpenLine :=
  match chunk.foldl (LineReader.push max) ⟨l, []⟩ with
  | ⟨current, lines⟩ => (lines.reverse, current)

/-- The lines of a stream that arrives in chunks. -/
def readLines (max : Nat) (l : OpenLine) : List (List UInt8) → List RawLine
  | [] => (l.rest max).toList
  | chunk :: chunks =>
    match l.feed max chunk with
    | (lines, l) => lines ++ readLines max l chunks

/-- A line may end with a carriage return, which is no part of it. -/
def dropReturn (bytes : List UInt8) : List UInt8 :=
  if bytes.getLast? == some carriageReturn then bytes.dropLast else bytes

/-- Marks a line that was cut. -/
def truncationMark : String := " [line truncated]"

/-- The text of a line. -/
def RawLine.text (l : RawLine) : String :=
  let text := Text.Utf8.decode (dropReturn l.content)
  if l.truncated then text ++ truncationMark else text

end HandlerHost.Output
