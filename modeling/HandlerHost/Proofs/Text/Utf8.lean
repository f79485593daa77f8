import HandlerHost.Text.Utf8

/-!
Reading the bytes of a text gives the text back. A character is followed byte by byte: its first
byte fixes how many are due and the range of the next, and each later one adds six bits.
-/
namespace HandlerHost.Text.Utf8

variable {cs : List Char} {low high : UInt8} {after code n : Nat}

theorem toNat_byte (h : n < 256) : (UInt8.ofNat n).toNat = n := by
  rw [UInt8.toNat_ofNat']
  omega

theorem first_ascii (h : n < 0x80) : first (UInt8.ofNat n) = ⟨.ground, [Char.ofNat n]⟩ := by
  have hn := toNat_byte (n := n) (by omega)
  simp [first, UInt8.lt_iff_toNat_lt, hn, h]

theorem first_two (h : 0xC2 ≤ n) (h' : n < 0xE0) :
    first (UInt8.ofNat n) = ⟨.inside 0 0x80 0xBF (n - 0xC0), []⟩ := by
  have hn := toNat_byte (n := n) (by omega)
  simp [first, UInt8.lt_iff_toNat_lt, hn, h', show ¬ n < 128 by omega, show ¬ n < 194 by omega]

/-- The second of three bytes is limited after the least first byte, so that the character is not
written too long, and after the one that surrogates would begin with. -/
theorem first_three (h : 0xE0 ≤ n) (h' : n < 0xF0) :
    ∃ low high, first (UInt8.ofNat n) = ⟨.inside 1 low high (n - 0xE0), []⟩ ∧
      low.toNat = (if n = 0xE0 then 0xA0 else 0x80) ∧
      high.toNat = (if n = 0xED then 0x9F else 0xBF) := by
  have hn := toNat_byte (n := n) (by omega)
  simp only [first, UInt8.lt_iff_toNat_lt, beq_iff_eq, ← UInt8.toNat_inj, hn]
  by_cases hl : n = 0xE0
  · subst hl
    exact ⟨0xA0, 0xBF, rfl, rfl, rfl⟩
  · by_cases hh : n = 0xED
    · subst hh
      exact ⟨0x80, 0x9F, rfl, rfl, rfl⟩
    · refine ⟨0x80, 0xBF, ?_, by simp [hl], by simp [hh]⟩
      simp [hl, hh, h', show ¬ n < 128 by omega, show ¬ n < 194 by omega, show ¬ n < 224 by omega]

theorem first_four (h : 0xF0 ≤ n) (h' : n < 0xF5) :
    ∃ low high, first (UInt8.ofNat n) = ⟨.inside 2 low high (n - 0xF0), []⟩ ∧
      low.toNat = (if n = 0xF0 then 0x90 else 0x80) ∧
      high.toNat = (if n = 0xF4 then 0x8F else 0xBF) := by
  have hn := toNat_byte (n := n) (by omega)
  simp only [first, UInt8.lt_iff_toNat_lt, beq_iff_eq, ← UInt8.toNat_inj, hn]
  by_cases hl : n = 0xF0
  · subst hl
    exact ⟨0x90, 0xBF, rfl, rfl, rfl⟩
  · by_cases hh : n = 0xF4
    · subst hh
      exact ⟨0x80, 0x8F, rfl, rfl, rfl⟩
    · refine ⟨0x80, 0xBF, ?_, by simp [hl], by simp [hh]⟩
      simp [hl, show ¬ n < 128 by omega, show ¬ n < 194 by omega, show ¬ n < 224 by omega,
        show n < 244 by omega, show ¬ n < 240 by omega, show ¬ n = 224 by omega,
        show ¬ n = 237 by omega]

theorem push_first {b : UInt8} {state : State} {more : List Char} (h : first b = ⟨state, more⟩) :
    Reader.push ⟨.ground, cs⟩ b = ⟨state, more.reverseAux cs⟩ := by
  simp [Reader.push, State.step, h]

/-- A later byte adds its six bits. -/
theorem push_more (hl : low.toNat ≤ n) (hh : n ≤ high.toNat) :
    Reader.push ⟨.inside (after + 1) low high code, cs⟩ (UInt8.ofNat n) =
      ⟨.inside after 0x80 0xBF (code * 64 + (n - 0x80)), cs⟩ := by
  have hn : (UInt8.ofNat n).toNat = n := toNat_byte (by have := high.toNat_lt; omega)
  simp [Reader.push, State.step, UInt8.le_iff_toNat_le, hn, hl, hh]

theorem push_last (hl : low.toNat ≤ n) (hh : n ≤ high.toNat) :
    Reader.push ⟨.inside 0 low high code, cs⟩ (UInt8.ofNat n) =
      ⟨.ground, Char.ofNat (code * 64 + (n - 0x80)) :: cs⟩ := by
  have hn : (UInt8.ofNat n).toNat = n := toNat_byte (by have := high.toNat_lt; omega)
  simp [Reader.push, State.step, UInt8.le_iff_toNat_le, hn, hl, hh]

/-- The bytes of a character are read as that character. -/
theorem foldl_push_encodeChar (c : Char) :
    (String.utf8EncodeChar c).foldl Reader.push ⟨.ground, cs⟩ = ⟨.ground, c :: cs⟩ := by
  have hv : c.val.toNat < 0xD800 ∨ 0xDFFF < c.val.toNat ∧ c.val.toNat < 0x110000 := c.valid
  have hc : Char.ofNat c.val.toNat = c := Char.ofNat_toNat c
  unfold String.utf8EncodeChar
  generalize c.val.toNat = v at hv hc
  dsimp only
  split
  · rw [List.foldl_cons, push_first (first_ascii (by omega)), hc]
    rfl
  · split
    · rw [List.foldl_cons, push_first (first_two (by omega) (by omega)), List.foldl_cons,
        List.reverseAux_nil, push_last (by simp) (by simp; omega)]
      have he : (v / 64 % 32 + 192 - 192) * 64 + (v % 64 + 128 - 128) = v := by omega
      rw [he, hc]
      rfl
    · split
      · obtain ⟨low, high, hf, hl, hh⟩ :=
          first_three (n := v / 4096 % 16 + 224) (by omega) (by omega)
        have hl : low.toNat ≤ v / 64 % 64 + 128 := by split at hl <;> omega
        have hh : v / 64 % 64 + 128 ≤ high.toNat := by split at hh <;> omega
        rw [List.foldl_cons, push_first hf, List.foldl_cons, List.reverseAux_nil,
          push_more hl hh, List.foldl_cons, push_last (by simp) (by simp; omega)]
        have he : ((v / 4096 % 16 + 224 - 224) * 64 + (v / 64 % 64 + 128 - 128)) * 64 +
            (v % 64 + 128 - 128) = v := by omega
        rw [he, hc]
        rfl
      · obtain ⟨low, high, hf, hl, hh⟩ :=
          first_four (n := v / 262144 % 8 + 240) (by omega) (by omega)
        have hl : low.toNat ≤ v / 4096 % 64 + 128 := by split at hl <;> omega
        have hh : v / 4096 % 64 + 128 ≤ high.toNat := by split at hh <;> omega
        rw [List.foldl_cons, push_first hf, List.foldl_cons, List.reverseAux_nil,
          push_more hl hh, List.foldl_cons, push_more (by simp) (by simp; omega),
          List.foldl_cons, push_last (by simp) (by simp; omega)]
        have he : (((v / 262144 % 8 + 240 - 240) * 64 + (v / 4096 % 64 + 128 - 128)) * 64 +
            (v / 64 % 64 + 128 - 128)) * 64 + (v % 64 + 128 - 128) = v := by omega
        rw [he, hc]
        rfl

theorem foldl_push_encode (text : List Char) :
    (text.flatMap String.utf8EncodeChar).foldl Reader.push ⟨.ground, cs⟩ =
      ⟨.ground, text.reverse ++ cs⟩ := by
  induction text generalizing cs with
  | nil => rfl
  | cons c text ih =>
    rw [List.flatMap_cons, List.foldl_append, foldl_push_encodeChar, ih]
    simp

/-- Every text is read from its bytes. -/
theorem decode_encode (s : String) : decode (encode s) = s := by
  have h : (encode s).foldl Reader.push .start = ⟨.ground, s.toList.reverse⟩ := by
    rw [encode, Reader.start, foldl_push_encode, List.append_nil]
  rw [decode, h]
  simp [Reader.finish, State.rest]

/-- A byte below 0x80 is a character of its own, and part of no other. -/
theorem eq_of_mem_encodeChar {c : Char} {b : UInt8} (h : b ∈ String.utf8EncodeChar c)
    (hb : b < 0x80) : c = Char.ofNat b.toNat := by
  have hc : Char.ofNat c.val.toNat = c := Char.ofNat_toNat c
  have hlow : ∀ n, 0x80 ≤ n → n < 256 → b ≠ UInt8.ofNat n := by
    rintro n hn hn' rfl
    rw [UInt8.lt_iff_toNat_lt, toNat_byte hn'] at hb
    exact absurd hn (Nat.not_le.mpr hb)
  unfold String.utf8EncodeChar at h
  dsimp only at h
  split at h
  · rw [List.mem_singleton.mp h, toNat_byte (by omega), hc]
  · exfalso
    split at h
    · simp only [List.mem_cons, List.not_mem_nil, or_false] at h
      rcases h with h | h <;> exact hlow _ (by omega) (by omega) h
    · split at h
      · simp only [List.mem_cons, List.not_mem_nil, or_false] at h
        rcases h with h | h | h <;> exact hlow _ (by omega) (by omega) h
      · simp only [List.mem_cons, List.not_mem_nil, or_false] at h
        rcases h with h | h | h | h <;> exact hlow _ (by omega) (by omega) h

theorem notMem_encode {s : String} {b : UInt8} (hb : b < 0x80)
    (h : Char.ofNat b.toNat ∉ s.toList) : b ∉ encode s := by
  intro hm
  obtain ⟨c, hc, hm⟩ := List.mem_flatMap.mp hm
  exact h (eq_of_mem_encodeChar hm hb ▸ hc)

theorem getLast?_encode_ne {s : String} {b : UInt8} (hb : b < 0x80)
    (h : s.toList.getLast? ≠ some (Char.ofNat b.toNat)) : (encode s).getLast? ≠ some b := by
  unfold encode
  rcases List.eq_nil_or_concat s.toList with hs | ⟨front, c, hs⟩
  · simp [hs]
  · rw [hs] at h ⊢
    rw [List.concat_eq_append, List.getLast?_concat] at h
    rw [List.concat_eq_append, List.flatMap_append, List.flatMap_singleton, List.getLast?_append]
    cases hl : (String.utf8EncodeChar c).getLast? with
    | none => exact absurd (List.getLast?_eq_none_iff.mp hl) String.utf8EncodeChar_ne_nil
    | some last =>
      rintro ⟨⟩
      exact h (congrArg some (eq_of_mem_encodeChar (List.mem_of_getLast? hl) hb))

theorem length_encode {s : String} : (encode s).length = s.utf8ByteSize := by
  rw [← String.size_toByteArray, ← String.utf8Encode_toList, List.utf8Encode]
  simp [encode]

end HandlerHost.Text.Utf8
