import HandlerHost.Proofs.Output.Segments
import HandlerHost.Proofs.Text.Lossy

/-!
What a stream is forwarded as. Each segment between newlines becomes one text, which its bytes alone
decide. Whatever these bytes are, the text is one line, it is no longer than the limit allows, and a
mark on it keeps it apart from the sentinels.
-/
namespace HandlerHost.Output

open Text.Utf8 (encode)

variable {max : Nat} {segment bytes front rest last : List UInt8} {chunks ended : List (List UInt8)}
  {text : String}

/-- The text that a segment is forwarded as. -/
def segmentText (max : Nat) (segment : List UInt8) : String := (segmentLine max segment 0).text

/-- The texts that some bytes are forwarded as. -/
def texts (max : Nat) (bytes : List UInt8) : List String :=
  (readLines max .start [bytes]).map RawLine.text

theorem segmentText_eq : segmentText max segment =
    Text.Utf8.decode (dropReturn (segment.take max)) ++
      if max < segment.length then truncationMark else "" := by
  by_cases h : max < segment.length
  · simp [segmentText, segmentLine, RawLine.text, h]
  · simp [segmentText, segmentLine, RawLine.text, h]

/-- A segment that begins like a text is forwarded as the text, the return and the mark apart. -/
theorem segmentText_of_take (h : segment.take max = encode text) : segmentText max segment =
    withoutReturn text ++ if max < segment.length then truncationMark else "" := by
  rw [segmentText_eq, h, dropReturn_encode, Text.Utf8.decode_encode]

/-- The texts are the same for all chunks. -/
theorem texts_of_chunks (hne : [] ∉ chunks) :
    (readAll max chunks).map RawLine.text = texts max chunks.flatten := by
  obtain ⟨ended, last, hparted⟩ := exists_parted chunks.flatten
  rw [texts, hparted.readAll_eq hne, hparted.readLines_eq]

theorem Parted.texts_eq (h : Parted bytes ended last) :
    texts max bytes = (ended ++ if last = [] then [] else [last]).map (segmentText max) := by
  rw [texts, h.readLines_eq, segmentLines, List.map_append, List.map_append, List.map_map]
  congr 1
  split <;> rfl

/-- A segment that starts and ends with a line is forwarded on its own. -/
theorem texts_segment (hfront : front = [] ∨ front.getLast? = some newline)
    (hs : newline ∉ segment) :
    texts max (front ++ (segment ++ [newline]) ++ rest) =
      texts max front ++ segmentText max segment :: texts max rest := by
  have hline : texts max (segment ++ [newline] ++ rest) =
      segmentText max segment :: texts max rest := by
    rw [texts, readLines_newline, readLines_line hs]
    rfl
  rcases hfront with rfl | hfront
  · exact hline
  · obtain ⟨before, rfl⟩ := List.getLast?_eq_some_iff.mp hfront
    rw [← hline, List.append_assoc]
    simp only [texts, readLines_newline, List.map_append]

theorem length_dropReturn_le : (dropReturn bytes).length ≤ bytes.length := by
  unfold dropReturn
  split
  · simp
  · exact Nat.le_refl _

theorem mem_of_mem_dropReturn {b : UInt8} (h : b ∈ dropReturn bytes) : b ∈ bytes := by
  unfold dropReturn at h
  split at h
  · exact List.mem_of_mem_dropLast h
  · exact h

/-- What the text is like that a segment is forwarded as. -/
structure Forwards (max : Nat) (segment : List UInt8) (text : String) : Prop where
  bounded : text.utf8ByteSize ≤ 3 * max + truncationMark.utf8ByteSize
  oneLine : '\n' ∉ text.toList
  marked : max < segment.length → text ≠ resultStart ∧ text ≠ resultEnd
  kept : ∀ s, segment.take max = encode s →
    text = withoutReturn s ++ if max < segment.length then truncationMark else ""

theorem utf8ByteSize_segmentText_le :
    (segmentText max segment).utf8ByteSize ≤ 3 * max + truncationMark.utf8ByteSize := by
  have hkept : (Text.Utf8.decode (dropReturn (segment.take max))).utf8ByteSize ≤ 3 * max := by
    have h := Text.Utf8.utf8ByteSize_decode_le (dropReturn (segment.take max))
    have hdrop : (dropReturn (segment.take max)).length ≤ (segment.take max).length :=
      length_dropReturn_le
    have htake : (segment.take max).length ≤ max := List.length_take_le max segment
    omega
  have hmark : (if max < segment.length then truncationMark else "").utf8ByteSize ≤
      truncationMark.utf8ByteSize := by
    split
    · exact Nat.le_refl _
    · exact Nat.zero_le _
  rw [segmentText_eq, String.utf8ByteSize_append]
  omega

/-- A newline is read from nothing else. -/
theorem newline_notMem_segmentText (hs : newline ∉ segment) :
    '\n' ∉ (segmentText max segment).toList := by
  have hkept : '\n' ∉ (Text.Utf8.decode (dropReturn (segment.take max))).toList := by
    intro hmem
    obtain ⟨b, hb, hval⟩ := Text.Utf8.exists_byte_of_mem_decode hmem (by decide) (by decide)
    obtain rfl : b = newline := UInt8.toNat_inj.mp hval
    exact hs (List.mem_of_mem_take (mem_of_mem_dropReturn hb))
  have hmark : '\n' ∉ (if max < segment.length then truncationMark else "").toList := by
    split <;> decide
  rw [segmentText_eq, String.toList_append, List.mem_append, not_or]
  exact ⟨hkept, hmark⟩

theorem forwards_segmentText (hs : newline ∉ segment) :
    Forwards max segment (segmentText max segment) where
  bounded := utf8ByteSize_segmentText_le
  oneLine := newline_notMem_segmentText hs
  marked h := by
    rw [segmentText_eq, if_pos h]
    exact append_mark_ne_sentinel _
  kept _ h := segmentText_of_take h

/-- For all bytes in all chunks: the segments between newlines, a last one that is empty apart, are
forwarded one by one. Each text is at most three times as long as the limit and the mark of a cut
line, holds no newline, and is no sentinel if it is marked. Where the bytes that the limit lets pass
are those of a text, they come out unchanged but for one return at their end. Reading byte by byte
forwards the same. -/
theorem forwarded_bounded (max : Nat) (hne : [] ∉ chunks) :
    ∃ ended last, chunks.flatten.splitOn newline = ended ++ [last] ∧
      List.Forall₂ (Forwards max) (ended ++ if last = [] then [] else [last])
        ((readAll max chunks).map RawLine.text) ∧
      (readAll max chunks).map RawLine.text = (readLines max .start chunks).map RawLine.text := by
  obtain ⟨ended, last, hparted⟩ := exists_parted chunks.flatten
  refine ⟨ended, last, hparted.splitOn_eq, ?_, ?_⟩
  · rw [texts_of_chunks hne, hparted.texts_eq, List.forall₂_map_right_iff, List.forall₂_same]
    intro segment hmem
    rcases List.mem_append.mp hmem with hmem | hmem
    · exact forwards_segmentText (hparted.ended_free segment hmem)
    · split at hmem
      · cases hmem
      · obtain rfl := List.mem_singleton.mp hmem
        exact forwards_segmentText hparted.last_free
  · rw [texts_of_chunks hne, texts, ← readLines_flatten]

/-- Bytes that are no text, cut at the limit, and a text as long as the limit with its return. -/
theorem forwarded_bounded_malformed :
    let chunks : List (List UInt8) := [[0xFF, 0xFF], [0xFF, 0xFF, 10, 0xC3], [0xA9, 13, 10]]
    [] ∉ chunks ∧
      (readAll 3 chunks).map RawLine.text = ["\uFFFD\uFFFD\uFFFD [line truncated]", "é"] ∧
      List.Forall₂ (Forwards 3) [[0xFF, 0xFF, 0xFF, 0xFF], [0xC3, 0xA9, 13]]
        ["\uFFFD\uFFFD\uFFFD [line truncated]", "é"] := by
  intro chunks
  have hne : [] ∉ chunks := by decide
  obtain ⟨ended, last, hsplit, hforwards, hread⟩ := forwarded_bounded 3 hne
  have htexts : (readAll 3 chunks).map RawLine.text =
      ["\uFFFD\uFFFD\uFFFD [line truncated]", "é"] := hread.trans (by decide)
  have hbytes : chunks.flatten.splitOn newline =
      [[0xFF, 0xFF, 0xFF, 0xFF], [0xC3, 0xA9, 13]] ++ [[]] := by decide
  obtain ⟨rfl, rfl⟩ := List.append_singleton_inj.mp (hsplit.symm.trans hbytes)
  rw [htexts] at hforwards
  exact ⟨hne, htexts, hforwards⟩

end HandlerHost.Output
