import HandlerHost.Output.Chunks
import HandlerHost.Proofs.Output.Lines
import Mathlib

/-!
A stream is read as the segments between its newlines, whatever chunks it arrives in. What a line
has taken is told by its bytes alone, so a newline at the edge of a chunk, a limit that is reached
inside of one or a chunk of a single byte make no difference.
-/
namespace HandlerHost.Output

variable {max : Nat} {l : RawLine} {chunk bytes more segment rest last : List UInt8}
  {chunks ended : List (List UInt8)}

/-- The line that a segment is read as, with so many bytes after it that end it. -/
def segmentLine (max : Nat) (segment : List UInt8) (terminator : Nat) : RawLine :=
  ⟨segment.take max, segment.length + terminator, decide (max < segment.length)⟩

/-- The lines of the segments before the last one, which end with a newline, and of the last one,
which does not. An empty last segment is no line. -/
def segmentLines (max : Nat) (ended : List (List UInt8)) (last : List UInt8) : List RawLine :=
  ended.map (segmentLine max · 1) ++ if last = [] then [] else [segmentLine max last 0]

namespace RawLine

theorem extend_nil : l.extend max [] = l := by simp [extend]

/-- It makes no difference whether bytes come at once or in two parts. -/
theorem extend_append : l.extend max (bytes ++ more) = (l.extend max bytes).extend max more := by
  rcases Nat.lt_or_ge (max - l.content.length) bytes.length with h | h
  · have hroom : max - (l.content.length + min (max - l.content.length) bytes.length) = 0 := by
      omega
    have hlong : max - l.content.length < bytes.length + more.length := by omega
    simp [extend, hroom, h, hlong, List.take_append_of_le_length (Nat.le_of_lt h), Nat.add_assoc]
  · have hroom : max - (l.content.length + bytes.length) =
        max - l.content.length - bytes.length := by omega
    have hlong : max - l.content.length - bytes.length < more.length ↔
        max - l.content.length < bytes.length + more.length := by omega
    simp [extend, hroom, hlong, Nat.not_lt.mpr h, List.take_append, List.take_of_length_le h,
      Nat.add_assoc]

theorem extend_empty : empty.extend max bytes = segmentLine max bytes 0 := by
  have hconsumed : 0 + bytes.length = bytes.length + 0 := Nat.add_comm 0 _
  rw [segmentLine, ← hconsumed]
  rfl

theorem terminate_extend_empty :
    (empty.extend max bytes).terminate = segmentLine max bytes 1 := by
  rw [extend_empty]
  rfl

end RawLine

theorem notMem_leave (h : [] ∉ chunks) : [] ∉ leave bytes chunks := by
  cases bytes <;> simp [leave, h]

theorem eq_nil_of_flatten (h : [] ∉ chunks) (hf : chunks.flatten = []) : chunks = [] := by
  cases chunks with
  | nil => rfl
  | cons chunk chunks => simp_all

theorem ne_newline (h : newline ∉ bytes) : ∀ b ∈ bytes, (b != newline) = true := by
  intro b hb
  simpa using fun he : b = newline => h (he ▸ hb)

/-- The bytes before the first newline are told by the bytes. -/
theorem takeWhile_newline (h : newline ∉ segment) :
    (segment ++ newline :: rest).takeWhile (· != newline) = segment := by
  simp [List.takeWhile_append_of_pos (ne_newline h)]

theorem dropWhile_newline (h : newline ∉ segment) :
    (segment ++ newline :: rest).dropWhile (· != newline) = newline :: rest := by
  simp [List.dropWhile_append_of_pos (ne_newline h)]

/-- A chunk without a newline belongs to the line as a whole. -/
theorem readLine_chunk (hne : chunk ≠ []) (h : newline ∉ chunk) :
    readLine max l (chunk :: chunks) = readLine max (l.extend max chunk) chunks := by
  have ht : chunk.takeWhile (· != newline) = chunk := List.takeWhile_eq_self_iff.mpr (ne_newline h)
  have hd : chunk.dropWhile (· != newline) = [] := List.dropWhile_eq_nil_iff.mpr (ne_newline h)
  rw [readLine, hd, ht]
  exact hne

/-- A newline in a chunk ends the line, and what stands behind it is left. -/
theorem readLine_newline (h : newline ∉ segment) :
    readLine max l ((segment ++ newline :: rest) :: chunks) =
      ((l.extend max segment).terminate, leave rest chunks) := by
  rw [readLine, takeWhile_newline h, dropWhile_newline h]
  simp

/-- Where no newline comes, the line takes all there is. -/
theorem readLine_last (hne : [] ∉ chunks) (h : newline ∉ chunks.flatten) :
    readLine max l chunks = (l.extend max chunks.flatten, []) := by
  induction chunks generalizing l with
  | nil => simp [readLine, RawLine.extend_nil]
  | cons chunk chunks ih =>
    rw [List.mem_cons, not_or] at hne
    rw [List.flatten_cons, List.mem_append, not_or] at h
    rw [readLine_chunk (Ne.symm hne.1) h.1, ih hne.2 h.2, List.flatten_cons,
      RawLine.extend_append]

/-- Where a newline comes, the line takes the bytes before the first one, and those behind it are
left. -/
theorem readLine_ended (hne : [] ∉ chunks) (hs : newline ∉ segment)
    (h : chunks.flatten = segment ++ newline :: rest) :
    ∃ later, readLine max l chunks = ((l.extend max segment).terminate, later) ∧
      later.flatten = rest ∧ [] ∉ later := by
  induction chunks generalizing l segment with
  | nil => simp at h
  | cons chunk chunks ih =>
    rw [List.mem_cons, not_or] at hne
    rw [List.flatten_cons] at h
    by_cases hn : newline ∈ chunk
    · -- The newline is the first one of this chunk.
      obtain ⟨before, after, rfl, hb⟩ := List.eq_append_cons_of_mem hn
      rw [List.append_assoc, List.cons_append] at h
      obtain rfl : before = segment := by
        rw [← takeWhile_newline hb, h, takeWhile_newline hs]
      have hrest : after ++ chunks.flatten = rest := by simpa using h
      exact ⟨_, readLine_newline hb, by rw [flatten_leave, hrest], notMem_leave hne.2⟩
    · -- The segment begins with this chunk.
      obtain ⟨more, rfl⟩ : ∃ more, segment = chunk ++ more := by
        rcases List.append_eq_append_iff.mp h with ⟨more, hseg, -⟩ | ⟨beyond, rfl, hbeyond⟩
        · exact ⟨more, hseg⟩
        · cases beyond with
          | nil => exact ⟨[], by simp⟩
          | cons b beyond =>
            obtain rfl := (List.cons.inj hbeyond).1
            exact absurd (by simp) hn
      rw [List.append_assoc, List.append_cancel_left_eq] at h
      rw [List.mem_append, not_or] at hs
      obtain ⟨later, hl, hf, hne'⟩ := ih (l := l.extend max chunk) hne.2 hs.2 h
      rw [readLine_chunk (Ne.symm hne.1) hn, RawLine.extend_append]
      exact ⟨later, hl, hf, hne'⟩

/-- Reading starts a new line exactly when there is something left to read. -/
theorem consumed_eq_zero_iff (hne : [] ∉ chunks) :
    (readLine max .empty chunks).1.consumed = 0 ↔ chunks = [] := by
  constructor
  · intro h
    by_cases hn : newline ∈ chunks.flatten
    · obtain ⟨segment, rest, hflat, hs⟩ := List.eq_append_cons_of_mem hn
      obtain ⟨later, hl, -⟩ : ∃ later,
          readLine max .empty chunks = ((RawLine.empty.extend max segment).terminate, later) ∧ _ :=
        readLine_ended hne hs hflat
      rw [hl, RawLine.terminate_extend_empty] at h
      simp [segmentLine] at h
    · rw [readLine_last hne hn, RawLine.extend_empty] at h
      exact eq_nil_of_flatten hne (List.length_eq_zero_iff.mp h)
  · rintro rfl
    rfl

/-- What is left of a stream that is not at its end, and holds no newline, is one line. -/
theorem readAll_last (hne : [] ∉ chunks) (hc : chunks ≠ []) (h : newline ∉ chunks.flatten) :
    readAll max chunks = [segmentLine max chunks.flatten 0] := by
  have hconsumed : (readLine max .empty chunks).1.consumed ≠ 0 :=
    mt (consumed_eq_zero_iff hne).mp hc
  rw [readAll, if_neg hconsumed, readLine_last hne h, RawLine.extend_empty, readAll]
  rfl

/-- A stream with a newline is read as the line before it and what stands behind it. -/
theorem readAll_ended (hne : [] ∉ chunks) (hs : newline ∉ segment)
    (h : chunks.flatten = segment ++ newline :: rest) :
    ∃ later, readAll max chunks = segmentLine max segment 1 :: readAll max later ∧
      later.flatten = rest ∧ [] ∉ later := by
  have hc : chunks ≠ [] := by
    rintro rfl
    simp at h
  have hconsumed : (readLine max .empty chunks).1.consumed ≠ 0 :=
    mt (consumed_eq_zero_iff hne).mp hc
  obtain ⟨later, hl, hflat, hlater⟩ : ∃ later,
      readLine max .empty chunks = ((RawLine.empty.extend max segment).terminate, later) ∧ _ :=
    readLine_ended hne hs h
  refine ⟨later, ?_, hflat, hlater⟩
  rw [readAll, if_neg hconsumed, hl, RawLine.terminate_extend_empty]

/-- Some bytes are these segments, each with a newline behind it, and the last one. -/
structure Parted (bytes : List UInt8) (ended : List (List UInt8)) (last : List UInt8) : Prop where
  bytes_eq : bytes = ended.flatMap (· ++ [newline]) ++ last
  ended_free : ∀ segment ∈ ended, newline ∉ segment
  last_free : newline ∉ last

theorem parted_cons :
    Parted bytes (segment :: ended) last ↔
      newline ∉ segment ∧ ∃ rest, bytes = segment ++ newline :: rest ∧ Parted rest ended last := by
  constructor
  · rintro ⟨rfl, hended, hlast⟩
    rw [List.forall_mem_cons] at hended
    exact ⟨hended.1, _, by simp, rfl, hended.2, hlast⟩
  · rintro ⟨hs, rest, rfl, rfl, hended, hlast⟩
    exact ⟨by simp, List.forall_mem_cons.mpr ⟨hs, hended⟩, hlast⟩

theorem exists_parted (bytes : List UInt8) : ∃ ended last, Parted bytes ended last := by
  induction hn : bytes.length using Nat.strongRecOn generalizing bytes with
  | ind n ih =>
    by_cases h : newline ∈ bytes
    · obtain ⟨segment, rest, rfl, hs⟩ := List.eq_append_cons_of_mem h
      obtain ⟨ended, last, hrest⟩ := ih rest.length (by simp [← hn]; omega) rest rfl
      exact ⟨segment :: ended, last, parted_cons.mpr ⟨hs, rest, rfl, hrest⟩⟩
    · exact ⟨[], bytes, by simp, by simp, h⟩

theorem Parted.splitOn_eq (h : Parted bytes ended last) :
    bytes.splitOn newline = ended ++ [last] := by
  induction ended generalizing bytes with
  | nil =>
    obtain ⟨rfl, -, hlast⟩ := h
    exact List.splitOn_eq_singleton hlast
  | cons segment ended ih =>
    obtain ⟨hs, rest, rfl, hrest⟩ := parted_cons.mp h
    rw [List.splitOn_append_cons_self_of_not_mem hs, ih hrest]
    rfl

/-- A stream that arrives in chunks is read as its segments. -/
theorem Parted.readAll_eq (h : Parted chunks.flatten ended last) (hne : [] ∉ chunks) :
    readAll max chunks = segmentLines max ended last := by
  induction ended generalizing chunks with
  | nil =>
    obtain ⟨hflat, -, hlast⟩ := h
    rw [List.flatMap_nil, List.nil_append] at hflat
    by_cases hc : chunks = []
    · subst hc hflat
      rw [readAll]
      rfl
    · have hl : last ≠ [] := fun he => hc (eq_nil_of_flatten hne (hflat.trans he))
      rw [readAll_last hne hc (hflat ▸ hlast), hflat]
      simp [segmentLines, hl]
  | cons segment ended ih =>
    obtain ⟨hs, rest, hflat, hrest⟩ := parted_cons.mp h
    obtain ⟨later, hread, rfl, hlater⟩ : ∃ later,
        readAll max chunks = segmentLine max segment 1 :: readAll max later ∧ _ :=
      readAll_ended hne hs hflat
    rw [hread, ih hrest hlater]
    rfl

theorem readLines_flatten {l : OpenLine} :
    readLines max l chunks = readLines max l [chunks.flatten] := by
  simp only [readLines_eq, List.flatten_singleton]

/-- And so is a stream that is read byte by byte. -/
theorem Parted.readLines_eq (h : Parted bytes ended last) :
    readLines max .start [bytes] = segmentLines max ended last := by
  induction ended generalizing bytes with
  | nil =>
    obtain ⟨hbytes, -, hlast⟩ := h
    rw [List.flatMap_nil, List.nil_append] at hbytes
    subst hbytes
    have hfeed : OpenLine.start.feed max bytes = ([], .ofBytes max bytes) := by
      rw [← OpenLine.ofBytes_nil max, feed_of_notMem hlast]
      rfl
    by_cases hl : bytes = []
    · subst hl
      rfl
    · have hlength : (OpenLine.ofBytes max bytes).length ≠ 0 := mt List.length_eq_zero_iff.mp hl
      simp only [HandlerHost.Output.readLines_eq, List.flatten_singleton, hfeed, OpenLine.rest,
        segmentLines, List.map_nil, if_neg hl, if_neg hlength, OpenLine.close_ofBytes]
      rfl
  | cons segment ended ih =>
    obtain ⟨hs, rest, rfl, hrest⟩ := parted_cons.mp h
    have hbytes : segment ++ newline :: rest = segment ++ [newline] ++ rest := by simp
    rw [hbytes, readLines_newline, readLines_line hs, ih hrest]
    rfl

/-- Nothing is consumed twice, and nothing is left out. -/
theorem Parted.sum_consumed (h : Parted bytes ended last) :
    ((segmentLines max ended last).map RawLine.consumed).sum = bytes.length := by
  have hlast : ((if last = [] then [] else [segmentLine max last 0]).map RawLine.consumed).sum =
      last.length := by
    split
    · simp [*]
    · simp [segmentLine]
  have hended : ((ended.map (segmentLine max · 1)).map RawLine.consumed).sum =
      (ended.flatMap (· ++ [newline])).length := by
    simp [segmentLine, List.length_flatMap, Function.comp_def]
  rw [segmentLines, List.map_append, List.sum_append, hlast, hended, h.bytes_eq, List.length_append]

theorem consumed_ne_zero {line : RawLine} (h : line ∈ segmentLines max ended last) :
    line.consumed ≠ 0 := by
  rcases List.mem_append.mp h with h | h
  · obtain ⟨segment, -, rfl⟩ := List.mem_map.mp h
    exact Nat.succ_ne_zero _
  · split at h
    · cases h
    · rename_i hl
      obtain rfl := List.mem_singleton.mp h
      exact mt List.length_eq_zero_iff.mp hl

/-- For every division of a stream into chunks: reading line after line comes to an end, with one
line for each segment between newlines, and none for a last one that is empty. A line keeps the
first bytes of its segment up to the limit, is cut exactly if the segment is longer, and consumes
the segment and the newline that ends it. The lines consume the stream, and one consumes nothing
only where nothing is left. Other chunks of the same bytes give the same lines, and so does reading
byte by byte. -/
theorem lines_of_chunks (max : Nat) (hne : [] ∉ chunks) :
    let bytes := chunks.flatten
    let lines := readAll max chunks
    (∃ ended last, bytes.splitOn newline = ended ++ [last] ∧
      lines = ended.map (fun s => ⟨s.take max, s.length + 1, decide (max < s.length)⟩) ++
        if last = [] then [] else [⟨last.take max, last.length, decide (max < last.length)⟩]) ∧
    (lines.map RawLine.consumed).sum = bytes.length ∧
    (∀ line ∈ lines, line.consumed ≠ 0) ∧
    (∀ left, [] ∉ left → ((readLine max .empty left).1.consumed = 0 ↔ left = [])) ∧
    (∀ others, [] ∉ others → others.flatten = bytes → readAll max others = lines) ∧
    lines = readLines max .start chunks := by
  intro bytes lines
  obtain ⟨ended, last, hparted⟩ := exists_parted bytes
  have hlines : lines = segmentLines max ended last := hparted.readAll_eq hne
  refine ⟨⟨ended, last, hparted.splitOn_eq, hlines⟩, ?_, ?_, fun left => consumed_eq_zero_iff, ?_,
    ?_⟩
  · rw [hlines]
    exact hparted.sum_consumed
  · intro line hline
    rw [hlines] at hline
    exact consumed_ne_zero hline
  · intro others hothers hbytes
    rw [hlines]
    exact Parted.readAll_eq (hbytes ▸ hparted) hothers
  · rw [hlines, readLines_flatten]
    exact hparted.readLines_eq.symm

/-- A newline on its own in a chunk, an empty line, one that is cut at the edge of a chunk and a
last line without a newline. -/
theorem lines_of_chunks_edges :
    let chunks : List (List UInt8) := [[97, 98], [99], [10], [10, 100]]
    [] ∉ chunks ∧
      readAll 2 chunks = [⟨[97, 98], 4, true⟩, ⟨[], 1, false⟩, ⟨[100], 1, false⟩] := by
  have hne : [] ∉ ([[97, 98], [99], [10], [10, 100]] : List (List UInt8)) := by decide
  exact ⟨hne, (lines_of_chunks 2 hne).2.2.2.2.2.trans rfl⟩

end HandlerHost.Output
