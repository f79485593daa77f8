import HandlerHost.Output.Lines
import HandlerHost.Output.Sentinel
import HandlerHost.Proofs.Text.Utf8

/-!
Lines of a byte stream, however it arrives. What an open line keeps is computed from its bytes
alone, and reading two streams that meet at a newline is reading one after the other.
-/
namespace HandlerHost.Output

variable {max : Nat} {l : OpenLine} {bytes more : List UInt8} {b : UInt8}

namespace OpenLine

/-- The line that is open after these bytes of its own. -/
def ofBytes (max : Nat) (bytes : List UInt8) : OpenLine := ⟨(bytes.take max).reverse, bytes.length⟩

theorem ofBytes_nil (max : Nat) : ofBytes max [] = start := by simp [ofBytes, start]

theorem add_ofBytes : (ofBytes max bytes).add max b = ofBytes max (bytes ++ [b]) := by
  by_cases h : bytes.length < max
  · have ht : (bytes ++ [b]).take max = bytes ++ [b] :=
      List.take_of_length_le (by rw [List.length_append]; exact h)
    simp [add, ofBytes, h, ht, List.take_of_length_le (Nat.le_of_lt h)]
  · have ht : (bytes ++ [b]).take max = bytes.take max :=
      List.take_append_of_le_length (Nat.not_lt.mp h)
    simp [add, ofBytes, h, ht]

theorem close_ofBytes {terminator : Nat} :
    (ofBytes max bytes).close max terminator =
      ⟨bytes.take max, bytes.length + terminator, decide (max < bytes.length)⟩ := by
  rw [close, ofBytes, List.reverse_reverse]

end OpenLine

/-- Lines that have ended already stay below those that end later. -/
theorem foldl_push_lines {lines : List RawLine} :
    bytes.foldl (LineReader.push max) ⟨l, lines⟩ =
      ⟨(l.feed max bytes).2, (l.feed max bytes).1.reverse ++ lines⟩ := by
  have h : ∀ (bytes : List UInt8) (l : OpenLine) (lines : List RawLine),
      bytes.foldl (LineReader.push max) ⟨l, lines⟩ =
        ⟨(bytes.foldl (LineReader.push max) ⟨l, []⟩).current,
          (bytes.foldl (LineReader.push max) ⟨l, []⟩).lines ++ lines⟩ := by
    intro bytes
    induction bytes with
    | nil => simp
    | cons b bytes ih =>
      intro l lines
      simp only [List.foldl_cons, LineReader.push]
      split
      · rw [ih _ (_ :: lines), ih _ [_]]
        simp
      · rw [ih]
  rw [h, OpenLine.feed]
  simp

@[simp] theorem feed_nil : l.feed max [] = ([], l) := rfl

theorem feed_append :
    l.feed max (bytes ++ more) =
      ((l.feed max bytes).1 ++ ((l.feed max bytes).2.feed max more).1,
        ((l.feed max bytes).2.feed max more).2) := by
  rw [OpenLine.feed, List.foldl_append, foldl_push_lines, foldl_push_lines]
  simp

/-- Bytes without a newline only make the open line longer. -/
theorem feed_of_notMem (h : newline ∉ more) :
    (OpenLine.ofBytes max bytes).feed max more = ([], OpenLine.ofBytes max (bytes ++ more)) := by
  induction more generalizing bytes with
  | nil => simp
  | cons b more ih =>
    rw [List.mem_cons, not_or] at h
    have hb : (b == newline) = false := by simpa using Ne.symm h.1
    rw [← List.singleton_append, feed_append]
    have hs : (OpenLine.ofBytes max bytes).feed max [b] =
        ([], OpenLine.ofBytes max (bytes ++ [b])) := by
      simp [OpenLine.feed, LineReader.push, hb, OpenLine.add_ofBytes]
    rw [hs, ih h.2]
    simp

theorem feed_newline : l.feed max [newline] = ([l.close max 1], .start) := by
  simp [OpenLine.feed, LineReader.push]

/-- Chunks make no difference. -/
theorem readLines_eq {chunks : List (List UInt8)} :
    readLines max l chunks =
      (l.feed max chunks.flatten).1 ++ ((l.feed max chunks.flatten).2.rest max).toList := by
  induction chunks generalizing l with
  | nil => simp [readLines]
  | cons chunk chunks ih => simp [readLines, ih, feed_append]

theorem rest_start : OpenLine.start.rest max = none := rfl

/-- A newline in the stream parts it. -/
theorem readLines_newline :
    readLines max l [bytes ++ [newline] ++ more] =
      readLines max l [bytes ++ [newline]] ++ readLines max .start [more] := by
  have hn : (l.feed max (bytes ++ [newline])).2 = .start := by rw [feed_append, feed_newline]
  have hm : l.feed max (bytes ++ [newline] ++ more) =
      ((l.feed max (bytes ++ [newline])).1 ++ (OpenLine.start.feed max more).1,
        (OpenLine.start.feed max more).2) := by rw [feed_append, hn]
  simp only [readLines_eq, List.flatten_singleton]
  rw [hm, hn, rest_start]
  simp

/-- A line whose bytes hold no newline. -/
theorem readLines_line (h : newline ∉ bytes) :
    readLines max .start [bytes ++ [newline]] =
      [⟨bytes.take max, bytes.length + 1, decide (max < bytes.length)⟩] := by
  have hb : OpenLine.start.feed max bytes = ([], .ofBytes max bytes) := by
    rw [← OpenLine.ofBytes_nil max, feed_of_notMem h]
    rfl
  simp only [readLines_eq, List.flatten_singleton]
  rw [feed_append, hb, feed_newline, OpenLine.close_ofBytes, rest_start]
  rfl

/-- The texts that a stream in chunks is forwarded as. -/
def forwarded (chunks : List (List UInt8)) : List String :=
  (readLines maxLineBytes .start chunks).map RawLine.text

theorem forwarded_flatten {chunks : List (List UInt8)} :
    forwarded chunks = forwarded [chunks.flatten] := by
  simp only [forwarded, readLines_eq, List.flatten_singleton]

theorem forwarded_newline :
    forwarded [bytes ++ [newline] ++ more] =
      forwarded [bytes ++ [newline]] ++ forwarded [more] := by
  simp only [forwarded, readLines_newline, List.map_append]

/-- A text without the return at its end. -/
def withoutReturn (text : String) : String :=
  if text.toList.getLast? = some '\r' then String.ofList text.toList.dropLast else text

theorem withoutReturn_of_ne {text : String} (h : text.toList.getLast? ≠ some '\r') :
    withoutReturn text = text := if_neg h

/-- What is left of a text is the text, or all of it but the return. -/
theorem toList_withoutReturn (text : String) :
    text.toList = (withoutReturn text).toList ∨
      text.toList = (withoutReturn text).toList ++ ['\r'] := by
  unfold withoutReturn
  split
  · rename_i h
    obtain ⟨cs, hcs⟩ := List.getLast?_eq_some_iff.mp h
    right
    simp [hcs]
  · exact .inl rfl

/-- Of the bytes of a text the return is dropped as it is of the text. -/
theorem dropReturn_encode (text : String) :
    dropReturn (Text.Utf8.encode text) = Text.Utf8.encode (withoutReturn text) := by
  by_cases h : text.toList.getLast? = some '\r'
  · obtain ⟨cs, hcs⟩ := List.getLast?_eq_some_iff.mp h
    have hbytes : Text.Utf8.encode text =
        cs.flatMap String.utf8EncodeChar ++ [carriageReturn] := by
      simp only [Text.Utf8.encode, hcs, List.flatMap_append]
      rfl
    have hrest : Text.Utf8.encode (withoutReturn text) = cs.flatMap String.utf8EncodeChar := by
      simp [withoutReturn, hcs, Text.Utf8.encode]
    rw [hbytes, hrest]
    simp [dropReturn]
  · have hne : (Text.Utf8.encode text).getLast? ≠ some carriageReturn :=
      Text.Utf8.getLast?_encode_ne (by decide) h
    rw [withoutReturn_of_ne h]
    simp [dropReturn, hne]

/-- A text that ends in the mark of a cut line is no sentinel. -/
theorem append_mark_ne_sentinel (kept : String) :
    kept ++ truncationMark ≠ resultStart ∧ kept ++ truncationMark ≠ resultEnd := by
  have hlast : ∀ s : String, s.toList.getLast? ≠ some ']' → kept ++ truncationMark ≠ s := by
    rintro s hs rfl
    exact hs (by simp [truncationMark])
  exact ⟨hlast _ (by decide), hlast _ (by decide)⟩

/-- A text on one line that is not too long arrives without the return at its end. -/
theorem forwarded_line {text : String} (hn : '\n' ∉ text.toList)
    (hl : text.utf8ByteSize ≤ maxLineBytes) :
    forwarded [Text.Utf8.encode text ++ [newline]] = [withoutReturn text] := by
  have hm : newline ∉ Text.Utf8.encode text := Text.Utf8.notMem_encode (by decide) hn
  rw [← Text.Utf8.length_encode] at hl
  rw [forwarded, readLines_line hm, List.take_of_length_le hl]
  simp [RawLine.text, dropReturn_encode, Text.Utf8.decode_encode, Nat.not_lt.mpr hl]

/-- Without such a return it arrives as it was written. -/
theorem forwarded_encode {text : String} (hn : '\n' ∉ text.toList)
    (hr : text.toList.getLast? ≠ some '\r') (hl : text.utf8ByteSize ≤ maxLineBytes) :
    forwarded [Text.Utf8.encode text ++ [newline]] = [text] := by
  rw [forwarded_line hn hl, withoutReturn_of_ne hr]

end HandlerHost.Output
