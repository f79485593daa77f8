import HandlerHost.Proofs.Output.Forwarding

/-!
Lines that are too long. The limit counts the bytes before the newline, so a line may be cut within
a character, and then a replacement stands for the part of it that is left. What comes before is the
longest beginning of the line that fits.
-/
namespace HandlerHost.Output

open Text.Utf8 (encode replacement spelledLength)

variable {max room : Nat} {c : Char} {cs more : List Char} {x : String}
  {front rest ending terminator : List UInt8} {chunks : List (List UInt8)}

/-- The characters at the beginning that fit in so many bytes. -/
def fitting (room : Nat) : List Char → List Char
  | [] => []
  | c :: cs => if c.utf8Size ≤ room then c :: fitting (room - c.utf8Size) cs else []

theorem fitting_prefix (room : Nat) (cs : List Char) : fitting room cs <+: cs := by
  induction cs generalizing room with
  | nil => exact List.nil_prefix
  | cons c cs ih =>
    rw [fitting]
    split
    · exact (List.prefix_cons_inj c).mpr (ih _)
    · exact List.nil_prefix

theorem spelledLength_fitting_le (room : Nat) (cs : List Char) :
    spelledLength (fitting room cs) ≤ room := by
  induction cs generalizing room with
  | nil => exact Nat.zero_le _
  | cons c cs ih =>
    rw [fitting]
    split
    · have h := ih (room - c.utf8Size)
      rw [Text.Utf8.spelledLength_cons]
      omega
    · exact Nat.zero_le _

/-- The character behind those that fit does not fit. -/
theorem lt_of_fitting (h : cs = fitting room cs ++ c :: more) :
    room < spelledLength (fitting room cs) + c.utf8Size := by
  induction cs generalizing room with
  | nil => simp [fitting] at h
  | cons d cs ih =>
    rw [fitting] at h ⊢
    split
    · rename_i hd
      rw [if_pos hd, List.cons_append, List.cons_inj_right] at h
      have hlt := ih h
      rw [Text.Utf8.spelledLength_cons]
      omega
    · rename_i hd
      rw [if_neg hd, List.nil_append] at h
      obtain ⟨rfl, -⟩ := List.cons.inj h
      simpa using hd

/-- Some bytes of a character, but not all of them. -/
def PartOf (front : List UInt8) (c : Char) : Prop :=
  front ≠ [] ∧ ∃ back, back ≠ [] ∧ String.utf8EncodeChar c = front ++ back

/-- The first bytes of some characters are those of the characters that fit, and a part of the next
one. -/
theorem take_spelled (room : Nat) (cs : List Char) :
    ∃ front, (cs.flatMap String.utf8EncodeChar).take room =
        (fitting room cs).flatMap String.utf8EncodeChar ++ front ∧
      (front = [] ∨ ∃ c, PartOf front c) := by
  induction cs generalizing room with
  | nil => exact ⟨[], by simp [fitting], .inl rfl⟩
  | cons c cs ih =>
    rw [fitting, List.flatMap_cons, List.take_append, String.length_utf8EncodeChar]
    by_cases hc : c.utf8Size ≤ room
    · obtain ⟨front, hfront, hpart⟩ := ih (room - c.utf8Size)
      have hwhole : (String.utf8EncodeChar c).take room = String.utf8EncodeChar c :=
        List.take_of_length_le (by rwa [String.length_utf8EncodeChar])
      rw [if_pos hc, hwhole, hfront, List.flatMap_cons]
      exact ⟨front, (List.append_assoc ..).symm, hpart⟩
    · -- There is no room for all of this character.
      have hnone : room - c.utf8Size = 0 := by omega
      rw [if_neg hc, hnone, List.take_zero, List.append_nil]
      refine ⟨_, (List.nil_append _).symm, ?_⟩
      by_cases hroom : room = 0
      · subst hroom
        exact .inl rfl
      · have hlength := String.length_utf8EncodeChar c
        refine .inr ⟨c, ?_, (String.utf8EncodeChar c).drop room, ?_, (List.take_append_drop ..).symm⟩
        · exact List.ne_nil_of_length_pos (by rw [List.length_take]; omega)
        · exact List.ne_nil_of_length_pos (by rw [List.length_drop]; omega)

/-- A part of a character ends with no return, which would be a character of its own. -/
theorem PartOf.getLast?_ne (h : PartOf front c) : front.getLast? ≠ some carriageReturn := by
  intro hlast
  obtain ⟨hfront, back, hback, hc⟩ := h
  have hmem : carriageReturn ∈ String.utf8EncodeChar c := by
    rw [hc]
    exact List.mem_append_left _ (List.mem_of_getLast? hlast)
  obtain rfl := Text.Utf8.eq_of_mem_encodeChar hmem (by decide)
  have hlength : (front ++ back).length = 1 := by rw [← hc]; rfl
  have := List.length_pos_iff.mpr hfront
  have := List.length_pos_iff.mpr hback
  rw [List.length_append] at hlength
  omega

/-- A cut within a character leaves the characters before it and a replacement. -/
theorem PartOf.decode_dropReturn (h : PartOf front c) (cs : List Char) :
    Text.Utf8.decode (dropReturn (cs.flatMap String.utf8EncodeChar ++ front)) =
      String.ofList (cs ++ [replacement]) := by
  have hdrop : dropReturn (cs.flatMap String.utf8EncodeChar ++ front) =
      cs.flatMap String.utf8EncodeChar ++ front := by
    have hlast : (cs.flatMap String.utf8EncodeChar ++ front).getLast? ≠ some carriageReturn := by
      rw [List.getLast?_append_of_ne_nil _ h.1]
      exact h.getLast?_ne
    rw [dropReturn, if_neg (by simpa using hlast)]
  obtain ⟨hfront, back, hback, hc⟩ := h
  rw [hdrop, Text.Utf8.decode_cut cs hc hfront hback]

/-- The longest beginning of a text that fits in so many bytes. -/
structure Longest (max : Nat) (p x : String) : Prop where
  beginning : p.toList <+: x.toList
  fits : p.utf8ByteSize ≤ max
  full : ∀ c more, x.toList = p.toList ++ c :: more → max < p.utf8ByteSize + c.utf8Size

theorem longest_fitting (max : Nat) (x : String) :
    Longest max (String.ofList (fitting max x.toList)) x where
  beginning := by
    rw [String.toList_ofList]
    exact fitting_prefix max x.toList
  fits := by
    rw [Text.Utf8.utf8ByteSize_eq, String.toList_ofList]
    exact spelledLength_fitting_le max x.toList
  full c more h := by
    rw [String.toList_ofList] at h
    rw [Text.Utf8.utf8ByteSize_eq, String.toList_ofList]
    exact lt_of_fitting h

/-- A line that fits with its return is forwarded as it is. -/
theorem segmentText_of_fits (hr : x.toList.getLast? ≠ some '\r')
    (he : ending = [] ∨ ending = [carriageReturn])
    (hl : (encode x ++ ending).length ≤ max) : segmentText max (encode x ++ ending) = x := by
  have hdrop : dropReturn (encode x ++ ending) = encode x := by
    rcases he with rfl | rfl
    · rw [List.append_nil, dropReturn_encode, withoutReturn_of_ne hr]
    · simp [dropReturn]
  rw [segmentText_eq, List.take_of_length_le hl, if_neg (Nat.not_lt.mpr hl), hdrop,
    Text.Utf8.decode_encode, String.append_empty]

/-- Of a line that does not fit the longest beginning is forwarded. If it takes all the room, a
return at its end is lost; if it does not, the cut is within the next character. -/
theorem segmentText_of_cut (hl : max < x.utf8ByteSize) : ∃ p, Longest max p x ∧
    segmentText max (encode x ++ ending) =
      (if p.utf8ByteSize = max then withoutReturn p else p ++ "\uFFFD") ++ truncationMark := by
  refine ⟨String.ofList (fitting max x.toList), longest_fitting max x, ?_⟩
  rw [← Text.Utf8.length_encode] at hl
  have hlong : max < (encode x ++ ending).length := by
    rw [List.length_append]
    omega
  obtain ⟨front, hfront, hpart⟩ := take_spelled max x.toList
  have htake : (encode x ++ ending).take max =
      (fitting max x.toList).flatMap String.utf8EncodeChar ++ front :=
    (List.take_append_of_le_length hl.le).trans hfront
  have hsize : spelledLength (fitting max x.toList) + front.length = max := by
    have hlength : ((encode x ++ ending).take max).length = max := List.length_take_of_le hlong.le
    rwa [htake, List.length_append] at hlength
  rw [Text.Utf8.utf8ByteSize_eq, String.toList_ofList]
  rcases hpart with rfl | ⟨c, hpart⟩
  · have hfull : (encode x ++ ending).take max = encode (String.ofList (fitting max x.toList)) := by
      rw [htake, List.append_nil, encode, String.toList_ofList]
    rw [if_pos (by simpa using hsize), segmentText_of_take hfull, if_pos hlong]
  · have hpos := List.length_pos_iff.mpr hpart.1
    rw [if_neg (by omega), segmentText_eq, if_pos hlong, htake, hpart.decode_dropReturn]
    rw [String.ofList_append]
    rfl

/-- For every text on one line that ends with no return, wherever it stands in a stream, whatever
the chunks and the limit. A line that has room, with the return that may come before its newline, is
forwarded as it is, and so is one of just the limit that a newline ends. Of a line that is longer
than the limit the longest beginning that fits is forwarded, less a return that it ends with at the
limit, and with a replacement where the cut is within a character, and then the mark. -/
theorem long_line_cut (max : Nat) (hne : [] ∉ chunks) (hn : '\n' ∉ x.toList)
    (hr : x.toList.getLast? ≠ some '\r')
    (ht : terminator = [newline] ∨ terminator = [carriageReturn, newline])
    (hfront : front = [] ∨ front.getLast? = some newline)
    (hbytes : chunks.flatten = front ++ (encode x ++ terminator) ++ rest) :
    ∃ line, (readAll max chunks).map RawLine.text = texts max front ++ line :: texts max rest ∧
      (x.utf8ByteSize < max ∨ x.utf8ByteSize = max ∧ terminator = [newline] → line = x) ∧
      (max < x.utf8ByteSize → ∃ p, Longest max p x ∧
        line = (if p.utf8ByteSize = max then withoutReturn p else p ++ "\uFFFD") ++
          truncationMark) := by
  obtain ⟨ending, rfl, he⟩ : ∃ ending, terminator = ending ++ [newline] ∧
      (ending = [] ∨ ending = [carriageReturn]) := by
    rcases ht with rfl | rfl
    · exact ⟨[], rfl, .inl rfl⟩
    · exact ⟨[carriageReturn], rfl, .inr rfl⟩
  have hs : newline ∉ encode x ++ ending := by
    have hx : newline ∉ encode x := Text.Utf8.notMem_encode (by decide) hn
    rcases he with rfl | rfl
    · simpa using hx
    · rw [List.mem_append, not_or]
      exact ⟨hx, by decide⟩
  refine ⟨segmentText max (encode x ++ ending), ?_, fun hl => ?_, segmentText_of_cut⟩
  · rw [texts_of_chunks hne, hbytes, ← List.append_assoc (encode x), texts_segment hfront hs]
  · apply segmentText_of_fits hr he
    rw [List.length_append, Text.Utf8.length_encode]
    rcases hl with hl | ⟨hl, hend⟩
    · have hending : ending.length ≤ 1 := by
        rcases he with rfl | rfl
        · exact Nat.zero_le _
        · exact Nat.le_refl _
      omega
    · obtain rfl : ending = [] := by simpa using hend
      exact hl.le

/-- A line with a character that the limit divides, among others: cut, and with room for one byte
more. -/
theorem long_line_cut_divided :
    let chunks : List (List UInt8) := [[122, 10, 97], [0xC3, 0xA9], [10, 121]]
    [] ∉ chunks ∧ '\n' ∉ "aé".toList ∧ "aé".toList.getLast? ≠ some '\r' ∧
      chunks.flatten = [122, 10] ++ (encode "aé" ++ [newline]) ++ [121] ∧
      (∃ p, Longest 2 p "aé" ∧ (readAll 2 chunks).map RawLine.text = ["z",
        (if p.utf8ByteSize = 2 then withoutReturn p else p ++ "\uFFFD") ++ truncationMark, "y"]) ∧
      (readAll 3 chunks).map RawLine.text = ["z", "aé", "y"] := by
  intro chunks
  have hne : [] ∉ chunks := by decide
  have hn : '\n' ∉ "aé".toList := by decide
  have hr : "aé".toList.getLast? ≠ some '\r' := by decide
  have hbytes : chunks.flatten = [122, 10] ++ (encode "aé" ++ [newline]) ++ [121] := by decide
  refine ⟨hne, hn, hr, hbytes, ?_, ?_⟩
  · obtain ⟨line, htexts, -, hcut⟩ :=
      long_line_cut 2 hne hn hr (.inl rfl) (.inr (by decide)) hbytes
    obtain ⟨p, hp, rfl⟩ := hcut (by decide)
    exact ⟨p, hp, htexts⟩
  · obtain ⟨line, htexts, hwhole, -⟩ :=
      long_line_cut 3 hne hn hr (.inl rfl) (.inr (by decide)) hbytes
    rw [htexts, hwhole (.inr ⟨by decide, rfl⟩)]
    decide

/-- A line is forwarded whole if it fits, and else a beginning of it that fits and the mark. -/
structure CutCleanly (max : Nat) (x line : String) : Prop where
  whole : x.utf8ByteSize ≤ max → line = x
  cut : max < x.utf8ByteSize →
    ∃ p, p.toList <+: x.toList ∧ p.utf8ByteSize ≤ max ∧ line = p ++ truncationMark

/-- A character that the limit divides leaves a replacement, which is no beginning of the line; and
a return that the limit cuts off leaves a mark on a line that fits. -/
theorem not_cutCleanly :
    (readAll 1 [encode "é" ++ [newline]]).map RawLine.text = ["\uFFFD" ++ truncationMark] ∧
      ¬ CutCleanly 1 "é" ("\uFFFD" ++ truncationMark) ∧
      (readAll 1 [encode "a" ++ [carriageReturn, newline]]).map RawLine.text =
        ["a" ++ truncationMark] ∧
      ¬ CutCleanly 1 "a" ("a" ++ truncationMark) := by
  refine ⟨?_, fun h => ?_, ?_, fun h => ?_⟩
  · rw [texts_of_chunks (by decide)]
    decide
  · obtain ⟨p, hp, -, hline⟩ := h.cut (by decide)
    have hlist := congrArg String.toList hline
    rw [String.toList_append, String.toList_append, List.append_left_inj] at hlist
    rw [← hlist] at hp
    exact absurd hp (by decide)
  · rw [texts_of_chunks (by decide)]
    decide
  · exact absurd (h.whole (by decide)) (by decide)

end HandlerHost.Output
