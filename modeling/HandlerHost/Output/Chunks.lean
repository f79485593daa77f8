import HandlerHost.Output.Lines

/-!
Lines of a stream that arrives in chunks, read one at a time. A line takes from the chunk at hand
what stands before the newline, as far as there is room; what stands behind it stays at hand for the
next line. A chunk without a newline is used up, and the line goes on in the next one.
-/
namespace HandlerHost.Output

namespace RawLine

/-- A line of which nothing has been read. -/
def empty : RawLine := ⟨[], 0, false⟩

/-- More bytes of a line. Those that there is no room for are lost, but they are consumed. -/
def extend (max : Nat) (l : RawLine) (bytes : List UInt8) : RawLine :=
  let room := max - l.content.length
  ⟨l.content ++ bytes.take room, l.consumed + bytes.length,
    l.truncated || decide (room < bytes.length)⟩

/-- The newline of a line is consumed with it and is not kept. -/
def terminate (l : RawLine) : RawLine := { l with consumed := l.consumed + 1 }

end RawLine

/-- The chunks of a stream when these bytes of a chunk are left. -/
def leave (bytes : List UInt8) (chunks : List (List UInt8)) : List (List UInt8) :=
  if bytes.isEmpty then chunks else bytes :: chunks

@[simp] theorem flatten_leave (bytes : List UInt8) (chunks : List (List UInt8)) :
    (leave bytes chunks).flatten = bytes ++ chunks.flatten := by
  cases bytes <;> simp [leave]

/-- Goes on with a line up to its newline or the end of the stream, which an empty chunk stands for.
Also tells the chunks that are left. -/
def readLine (max : Nat) (l : RawLine) : List (List UInt8) → RawLine × List (List UInt8)
  | [] => (l, [])
  | [] :: chunks => (l, chunks)
  | chunk :: chunks =>
    let more := l.extend max (chunk.takeWhile (· != newline))
    match chunk.dropWhile (· != newline) with
    | [] => readLine max more chunks
    | _ :: after => (more.terminate, leave after chunks)

/-- What a line consumes is taken from the stream. -/
theorem consumed_readLine (max : Nat) (l : RawLine) (chunks : List (List UInt8)) :
    (readLine max l chunks).1.consumed + (readLine max l chunks).2.flatten.length =
      l.consumed + chunks.flatten.length := by
  have hsplit (chunk : List UInt8) :
      (chunk.takeWhile (· != newline)).length + (chunk.dropWhile (· != newline)).length =
        chunk.length := by
    rw [← List.length_append, List.takeWhile_append_dropWhile]
  fun_induction readLine max l chunks with
  | case1 l => rfl
  | case2 l chunks => rfl
  | case3 l chunk chunks _ more hd ih =>
    have hlength := hsplit chunk
    rw [hd, List.length_nil] at hlength
    simp only [more, RawLine.extend, List.flatten_cons, List.length_append] at ih ⊢
    omega
  | case4 l chunk chunks _ more b after hd =>
    have hlength := hsplit chunk
    rw [hd, List.length_cons] at hlength
    simp only [more, RawLine.terminate, RawLine.extend, flatten_leave, List.flatten_cons,
      List.length_append]
    omega

/-- Reads lines until one consumes nothing. -/
def readAll (max : Nat) (chunks : List (List UInt8)) : List RawLine :=
  if (readLine max .empty chunks).1.consumed = 0 then []
  else (readLine max .empty chunks).1 :: readAll max (readLine max .empty chunks).2
termination_by chunks.flatten.length
decreasing_by
  have h : _ = 0 + chunks.flatten.length := consumed_readLine max .empty chunks
  omega

end HandlerHost.Output
