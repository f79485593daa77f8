import HandlerHost.Proofs.Text.Utf8
import Mathlib

/-!
Reading bytes that need not be a text. A byte makes a text longer by no more than one replacement, a
character of ASCII is read from no byte but its own, and a character that breaks off is read as one
replacement.
-/
namespace HandlerHost.Text.Utf8

variable {cs ds : List Char} {bytes more : List UInt8} {b : UInt8} {c : Char} {s : State} {r : Reader}

/-- How many bytes some characters have. -/
def spelledLength (cs : List Char) : Nat := (cs.flatMap String.utf8EncodeChar).length

@[simp] theorem spelledLength_nil : spelledLength [] = 0 := rfl

@[simp] theorem spelledLength_cons : spelledLength (c :: cs) = c.utf8Size + spelledLength cs := by
  rw [spelledLength, List.flatMap_cons, List.length_append, String.length_utf8EncodeChar]
  rfl

@[simp] theorem spelledLength_append :
    spelledLength (cs ++ ds) = spelledLength cs + spelledLength ds := by
  rw [spelledLength, List.flatMap_append, List.length_append]
  rfl

@[simp] theorem spelledLength_reverse : spelledLength cs.reverse = spelledLength cs := by
  induction cs with
  | nil => rfl
  | cons c cs ih => simp [ih, Nat.add_comm]

theorem utf8ByteSize_eq {text : String} : text.utf8ByteSize = spelledLength text.toList :=
  length_encode.symm

theorem toNat_ascii (h : b < 0x80) : (Char.ofNat b.toNat).toNat = b.toNat := by
  rw [UInt8.lt_iff_toNat_lt] at h
  have hv : b.toNat.isValidChar := .inl (Nat.lt_trans h (by decide))
  rw [Char.toNat_ofNat, if_pos hv]

theorem utf8Size_ascii (h : b < 0x80) : (Char.ofNat b.toNat).utf8Size = 1 := by
  rw [Char.utf8Size_eq_one_iff, UInt32.le_iff_toNat_le]
  rw [UInt8.lt_iff_toNat_lt] at h
  exact (toNat_ascii h).trans_le (Nat.le_of_lt_succ h)

/-- A code that is no character stands for NUL. -/
theorem toNat_ofNat_lofty {n : Nat} (h : 0x80 ≤ n) :
    (Char.ofNat n).toNat = 0 ∨ 0x80 ≤ (Char.ofNat n).toNat := by
  rw [Char.toNat_ofNat]
  split
  · exact .inr h
  · exact .inl rfl

namespace State

/-- The bytes that come if the character breaks off. -/
def due : State → Nat
  | ground => 0
  | inside .. => 3

/-- Whatever bytes follow, the character within which this is will be none of ASCII. -/
def Lofty : State → Prop
  | ground => True
  | inside after low _ code =>
    0x80 ≤ low.toNat ∧ 0x80 ≤ (code * 64 + (low.toNat - 0x80)) * 64 ^ after

end State

/-- What a byte is read as after a state. -/
structure Progress (s : State) (b : UInt8) (t : Step) : Prop where
  lofty : t.state.Lofty
  size : spelledLength t.characters + t.state.due ≤ s.due + 3
  ascii : ∀ c ∈ t.characters, 0 < c.toNat → c.toNat < 0x80 → b.toNat = c.toNat
  moves : t.characters = [] → t.state ≠ .ground

theorem progress_ascii (h : b < 0x80) : Progress .ground b ⟨.ground, [Char.ofNat b.toNat]⟩ where
  lofty := trivial
  size := by simp [utf8Size_ascii h, State.due]
  ascii c hc _ _ := by
    obtain rfl := List.mem_singleton.mp hc
    exact (toNat_ascii h).symm
  moves := nofun

theorem progress_replacement : Progress .ground b ⟨.ground, [replacement]⟩ where
  lofty := trivial
  size := Nat.le_refl _
  ascii c hc _ hlow := by
    obtain rfl := List.mem_singleton.mp hc
    exact absurd hlow (by decide)
  moves := nofun

theorem progress_inside {after code : Nat} {low high : UInt8} (hl : 0x80 ≤ low.toNat)
    (hc : 0x80 ≤ (code * 64 + (low.toNat - 0x80)) * 64 ^ after) :
    Progress s b ⟨.inside after low high code, []⟩ where
  lofty := ⟨hl, hc⟩
  size := Nat.le_add_left _ _
  ascii := nofun
  moves := nofun

/-- A character beyond ASCII takes no more than the replacement that was due and one byte. -/
theorem progress_character {after code : Nat} {low high : UInt8}
    (hc : c.toNat = 0 ∨ 0x80 ≤ c.toNat) :
    Progress (.inside after low high code) b ⟨.ground, [c]⟩ where
  lofty := trivial
  size := by
    have h := Char.utf8Size_le_four c
    simp only [spelledLength_cons, spelledLength_nil, State.due]
    omega
  ascii d hd hpos hlt := by
    obtain rfl := List.mem_singleton.mp hd
    omega
  moves := nofun

/-- Every first byte but one of ASCII leads to a code beyond ASCII or to a replacement. -/
theorem progress_first (b : UInt8) : Progress .ground b (first b) := by
  unfold first
  simp only [UInt8.lt_iff_toNat_lt, beq_iff_eq, ← UInt8.toNat_inj, UInt8.reduceToNat]
  split
  · rename_i h
    exact progress_ascii (UInt8.lt_iff_toNat_lt.mpr h)
  split
  · exact progress_replacement
  split
  · exact progress_inside (by decide) (by simp; omega)
  split
  · exact progress_inside (by decide) (by decide)
  split
  · exact progress_inside (by decide) (by decide)
  split
  · exact progress_inside (by decide) (by simp; omega)
  split
  · exact progress_inside (by decide) (by decide)
  split
  · exact progress_inside (by decide) (by simp; omega)
  split
  · exact progress_inside (by decide) (by decide)
  · exact progress_replacement

/-- A byte that goes on with a character brings its code no lower than the least one. -/
theorem progress_more {after code : Nat} {low : UInt8} (hb : low ≤ b)
    (hc : 0x80 ≤ (code * 64 + (low.toNat - 0x80)) * 64 ^ after) :
    0x80 ≤ (code * 64 + (b.toNat - 0x80)) * 64 ^ after := by
  rw [UInt8.le_iff_toNat_le] at hb
  exact hc.trans (Nat.mul_le_mul_right _ (by omega))

theorem progress_step (h : s.Lofty) (b : UInt8) : Progress s b (s.step b) := by
  cases s with
  | ground => exact progress_first b
  | inside after low high code =>
    obtain ⟨hl, hc⟩ := h
    simp only [State.step]
    split
    · rename_i hb
      have hlow : low ≤ b := (by simpa using hb : low ≤ b ∧ b ≤ high).1
      have hcode : 0x80 ≤ (code * 64 + (b.toNat - 0x80)) * 64 ^ after := progress_more hlow hc
      cases after with
      | zero =>
        rw [pow_zero, Nat.mul_one] at hcode
        exact progress_character (toNat_ofNat_lofty hcode)
      | succ after =>
        have hsub : (0x80 : UInt8).toNat - 0x80 = 0 := rfl
        refine progress_inside (Nat.le_refl _) ?_
        rwa [hsub, Nat.add_zero, Nat.mul_assoc, ← pow_succ']
    · -- The byte breaks the character off, and is a first byte itself.
      obtain ⟨hlofty, hsize, hascii, -⟩ := progress_first b
      refine ⟨hlofty, ?_, ?_, fun h => absurd h (List.cons_ne_nil _ _)⟩
      · have hr : replacement.utf8Size = 3 := rfl
        simp only [spelledLength_cons, hr, State.due] at hsize ⊢
        omega
      · intro c hmem hpos hlt
        rcases List.mem_cons.mp hmem with rfl | hmem
        · exact absurd hlt (by decide)
        · exact hascii c hmem hpos hlt

/-- What is known of a reader that has read these bytes from the start. -/
structure Read (bytes : List UInt8) (r : Reader) : Prop where
  lofty : r.state.Lofty
  size : spelledLength r.characters + r.state.due ≤ 3 * bytes.length
  ascii : ∀ c ∈ r.characters, 0 < c.toNat → c.toNat < 0x80 → ∃ b ∈ bytes, b.toNat = c.toNat

theorem push_eq (r : Reader) (b : UInt8) :
    r.push b = ⟨(r.state.step b).state, (r.state.step b).characters.reverse ++ r.characters⟩ := by
  simp [Reader.push]

theorem read_push (h : Read bytes r) (b : UInt8) : Read (bytes ++ [b]) (r.push b) := by
  obtain ⟨hlofty, hsize, hascii, -⟩ := progress_step h.lofty b
  rw [push_eq]
  refine ⟨hlofty, ?_, ?_⟩
  · have := h.size
    simp only [spelledLength_append, spelledLength_reverse, List.length_append,
      List.length_singleton]
    omega
  · intro c hc hpos hlt
    rcases List.mem_append.mp hc with hc | hc
    · exact ⟨b, by simp, hascii c (List.mem_reverse.mp hc) hpos hlt⟩
    · obtain ⟨a, ha, hac⟩ := h.ascii c hc hpos hlt
      exact ⟨a, by simp [ha], hac⟩

theorem read_start : Read [] .start := ⟨trivial, Nat.le_refl _, nofun⟩

theorem read_foldl (h : Read bytes r) (more : List UInt8) :
    Read (bytes ++ more) (more.foldl Reader.push r) := by
  induction more generalizing bytes r with
  | nil => rwa [List.append_nil]
  | cons b more ih =>
    rw [List.append_cons]
    exact ih (read_push h b)

theorem read_bytes (bytes : List UInt8) : Read bytes (bytes.foldl Reader.push .start) :=
  read_foldl read_start bytes

theorem toList_decode (bytes : List UInt8) :
    (decode bytes).toList = (bytes.foldl Reader.push .start).characters.reverse ++
      (bytes.foldl Reader.push .start).state.rest := by
  cases h : (bytes.foldl Reader.push .start).state <;>
    simp [decode, Reader.finish, State.rest, h]

theorem spelledLength_rest (s : State) : spelledLength s.rest = s.due := by
  cases s <;> rfl

/-- A text takes no more than three bytes for each byte that it is read from. -/
theorem utf8ByteSize_decode_le (bytes : List UInt8) :
    (decode bytes).utf8ByteSize ≤ 3 * bytes.length := by
  have h := (read_bytes bytes).size
  rwa [utf8ByteSize_eq, toList_decode, spelledLength_append, spelledLength_reverse,
    spelledLength_rest]

/-- A character of ASCII other than NUL is read from its own byte. -/
theorem exists_byte_of_mem_decode (hc : c ∈ (decode bytes).toList) (hpos : 0 < c.toNat)
    (hlt : c.toNat < 0x80) : ∃ b ∈ bytes, b.toNat = c.toNat := by
  rw [toList_decode, List.mem_append, List.mem_reverse] at hc
  rcases hc with hc | hc
  · exact (read_bytes bytes).ascii c hc hpos hlt
  · cases hs : (bytes.foldl Reader.push .start).state with
    | ground => simp [hs, State.rest] at hc
    | inside after low high code =>
      rw [hs] at hc
      obtain rfl := List.mem_singleton.mp hc
      exact absurd hlt (by decide)

/-- What has been read stays. -/
theorem characters_suffix (bytes : List UInt8) (r : Reader) :
    r.characters <:+ (bytes.foldl Reader.push r).characters := by
  induction bytes generalizing r with
  | nil => exact List.suffix_rfl
  | cons b bytes ih =>
    have hpush : r.characters <:+ (r.push b).characters := by
      rw [push_eq]
      exact List.suffix_append _ _
    exact hpush.trans (ih (r.push b))

theorem foldl_push_below (bytes : List UInt8) (s : State) (cs below : List Char) :
    bytes.foldl Reader.push ⟨s, cs ++ below⟩ =
      ⟨(bytes.foldl Reader.push ⟨s, cs⟩).state,
        (bytes.foldl Reader.push ⟨s, cs⟩).characters ++ below⟩ := by
  induction bytes generalizing s cs with
  | nil => rfl
  | cons b bytes ih =>
    simp only [List.foldl_cons, push_eq]
    rw [← List.append_assoc, ih]

/-- Bytes that end between characters have made a character. -/
theorem length_lt_of_ground (h : Read bytes r) (hne : more ≠ [])
    (hg : (more.foldl Reader.push r).state = .ground) :
    r.characters.length < (more.foldl Reader.push r).characters.length := by
  obtain ⟨front, b, rfl⟩ := (List.eq_nil_or_concat' more).resolve_left hne
  have hfront : r.characters.length ≤ (front.foldl Reader.push r).characters.length :=
    (characters_suffix front r).length_le
  have hb : Progress _ b _ := progress_step (read_foldl h front).lofty b
  rw [List.foldl_concat, push_eq] at hg ⊢
  have hmade := List.length_pos_iff.mpr fun hn => hb.moves hn hg
  rw [List.length_append, List.length_reverse]
  omega

/-- A character that breaks off has made none, and it is not between characters that it does. -/
theorem foldl_push_cut {front back : List UInt8} (hc : String.utf8EncodeChar c = front ++ back)
    (hfront : front ≠ []) (hback : back ≠ []) :
    (front.foldl Reader.push .start).characters = [] ∧
      (front.foldl Reader.push .start).state ≠ .ground := by
  have hread : Read front (front.foldl Reader.push .start) := read_bytes front
  have hwhole : back.foldl Reader.push (front.foldl Reader.push .start) = ⟨.ground, [c]⟩ := by
    rw [← List.foldl_append, ← hc]
    exact foldl_push_encodeChar c
  have hlt := length_lt_of_ground hread hback (by rw [hwhole])
  rw [hwhole, List.length_singleton, Nat.lt_one_iff] at hlt
  refine ⟨List.length_eq_zero_iff.mp hlt, fun hg => ?_⟩
  exact absurd (length_lt_of_ground read_start hfront hg) (by simp [hlt])

/-- A text that ends within a character is read with a replacement at its end. -/
theorem decode_cut {front back : List UInt8} (text : List Char)
    (hc : String.utf8EncodeChar c = front ++ back) (hfront : front ≠ []) (hback : back ≠ []) :
    decode (text.flatMap String.utf8EncodeChar ++ front) = String.ofList (text ++ [replacement]) := by
  obtain ⟨hnone, hinside⟩ := foldl_push_cut hc hfront hback
  have hrun : (text.flatMap String.utf8EncodeChar ++ front).foldl Reader.push .start =
      ⟨(front.foldl Reader.push .start).state, text.reverse⟩ := by
    rw [List.foldl_append, Reader.start, foldl_push_encode, List.append_nil]
    have h := foldl_push_below front .ground [] text.reverse
    rw [List.nil_append] at h
    rw [h]
    have hn : (front.foldl Reader.push ⟨.ground, []⟩).characters = [] := hnone
    rw [hn]
    rfl
  apply String.toList_injective
  rw [toList_decode, hrun, String.toList_ofList, List.reverse_reverse]
  cases hs : (front.foldl Reader.push .start).state with
  | ground => exact absurd hs hinside
  | inside => rfl

end HandlerHost.Text.Utf8
