import HandlerHost.Json.Writer
import HandlerHost.Json.Scan

/-!
String literals. A character may be written as it stands, with a letter after a backslash, or with
the number of one or of two units of sixteen bits. Every such literal is read as its text, and the
one that the writer chooses is among them.
-/
namespace HandlerHost.Json

variable {c : Char} {cs ws acc rest : List Char} {s : String} {n : Nat}

/-- One way to write a character inside a literal. -/
inductive SpellsChar : Char → List Char → Prop
  | plain {c : Char} (hc : 0x20 ≤ c.toNat) (hq : c ≠ '"') (hb : c ≠ '\\') : SpellsChar c [c]
  | letter {e c : Char} (h : escaped? e = some c) : SpellsChar c ['\\', e]
  | unit {a b c d : Char} {n : Nat} (h : hexQuad? a b c d = some n)
      (hh : isHighSurrogate n = false) (hl : isLowSurrogate n = false) :
      SpellsChar (Char.ofNat n) ['\\', 'u', a, b, c, d]
  | pair {a b c d e f g h : Char} {n m : Nat} (hn : hexQuad? a b c d = some n)
      (hh : isHighSurrogate n = true) (hm : hexQuad? e f g h = some m)
      (hl : isLowSurrogate m = true) :
      SpellsChar (joinSurrogates n m) ['\\', 'u', a, b, c, d, '\\', 'u', e, f, g, h]

/-- The ways to write a text between the quotes of a literal. -/
inductive SpellsChars : List Char → List Char → Prop
  | nil : SpellsChars [] []
  | cons {c : Char} {w cs ws : List Char} (h : SpellsChar c w) (hs : SpellsChars cs ws) :
      SpellsChars (c :: cs) (w ++ ws)

/-- The ways to write a text as a literal. -/
def SpellsString (s : String) (ws : List Char) : Prop :=
  ∃ inside, SpellsChars s.toList inside ∧ ws = '"' :: (inside ++ ['"'])

theorem not_isLowSurrogate_of_high (h : isHighSurrogate n = true) :
    isLowSurrogate n = false := by
  simp only [isHighSurrogate, isLowSurrogate, Bool.and_eq_true, decide_eq_true_eq,
    Bool.and_eq_false_iff, decide_eq_false_iff_not] at h ⊢
  omega

/-- Reading goes on after one character, however it is written. -/
theorem scanString_char {w : List Char} (h : SpellsChar c w) :
    scanString acc (w ++ rest) = scanString (c :: acc) rest := by
  cases h with
  | plain hc hq hb =>
    have hn : ¬ c.toNat < 0x20 := Nat.not_lt.mpr hc
    rw [List.singleton_append, scanString.eq_def]
    split
    case h_7 he =>
      obtain ⟨rfl, rfl⟩ := List.cons.inj he
      exact if_neg hn
    all_goals simp_all
  | letter h =>
    unfold escaped? at h
    split at h <;> cases h <;> rfl
  | unit h hh hl =>
    simp [scanString, h, hh, hl]
  | pair hn hh hm hl =>
    simp [scanString, hn, hh, hm, hl, not_isLowSurrogate_of_high hh]

theorem scanString_chars (h : SpellsChars cs ws) :
    scanString acc (ws ++ '"' :: rest) = .ok (acc.reverse ++ cs, rest) := by
  induction h generalizing acc with
  | nil => simp [scanString]
  | cons h _ ih =>
    rw [List.append_assoc, scanString_char h, ih]
    simp

theorem hexValue?_hexDigit (h : n < 16) : hexValue? (hexDigit n) = some n := by
  revert n
  decide

/-- The two digits of an escape denote the character's number. -/
theorem hexQuad?_unicodeEscape (h : c.toNat < 0x20) :
    hexQuad? '0' '0' (hexDigit (c.toNat / 16)) (hexDigit (c.toNat % 16)) = some c.toNat := by
  have hz : hexValue? '0' = some 0 := rfl
  have hd : hexValue? (hexDigit (c.toNat / 16)) = some (c.toNat / 16) :=
    hexValue?_hexDigit (by omega)
  have hm : hexValue? (hexDigit (c.toNat % 16)) = some (c.toNat % 16) :=
    hexValue?_hexDigit (by omega)
  simp only [hexQuad?, hz, hd, hm, Option.pure_def, Option.bind_eq_bind, Option.bind_some,
    Option.some.injEq]
  omega

theorem spellsChar_unicodeEscape (h : c.toNat < 0x20) : SpellsChar c (unicodeEscape c) := by
  have hu : SpellsChar (Char.ofNat c.toNat) (unicodeEscape c) := by
    apply SpellsChar.unit (hexQuad?_unicodeEscape h)
    · simp [isHighSurrogate]
      omega
    · simp [isLowSurrogate]
      omega
  rwa [Char.ofNat_toNat] at hu

theorem spellsChar_escapeChar : SpellsChar c (escapeChar c) := by
  unfold escapeChar
  split
  case h_8 hq hb _ _ _ _ _ =>
    split
    · rename_i hc
      exact spellsChar_unicodeEscape hc
    · rename_i hc
      exact .plain (Nat.not_lt.mp hc) hq hb
  all_goals exact .letter rfl

theorem spellsChars_escape (cs : List Char) : SpellsChars cs (cs.flatMap escapeChar) := by
  induction cs with
  | nil => exact .nil
  | cons c cs ih => exact .cons spellsChar_escapeChar ih

theorem toList_pushAll {acc : String} : (pushAll acc cs).toList = acc.toList ++ cs := by
  induction cs generalizing acc with
  | nil => simp [pushAll]
  | cons c cs ih =>
    have hp : pushAll acc (c :: cs) = pushAll (acc.push c) cs := rfl
    rw [hp, ih]
    simp

theorem toList_foldl_pushAll {acc : String} :
    (cs.foldl (fun a c => pushAll a (escapeChar c)) acc).toList =
      acc.toList ++ cs.flatMap escapeChar := by
  induction cs generalizing acc with
  | nil => simp
  | cons c cs ih =>
    rw [List.foldl_cons, ih, toList_pushAll]
    simp

/-- The writer adds a literal of the text. -/
theorem literalOnto_spells (acc s : String) :
    ∃ ws, (literalOnto acc s).toList = acc.toList ++ ws ∧ SpellsString s ws := by
  refine ⟨_, ?_, _, spellsChars_escape s.toList, rfl⟩
  simp [literalOnto, toList_foldl_pushAll]

theorem toList_literal (s : String) :
    (literal s).toList = '"' :: (s.toList.flatMap escapeChar ++ ['"']) := by
  simp [literal, literalOnto, toList_foldl_pushAll]

theorem hexDigit_printable (h : n < 16) : 0x20 ≤ (hexDigit n).toNat := by
  revert n
  decide

theorem escapeChar_printable {d : Char} (h : d ∈ escapeChar c) : 0x20 ≤ d.toNat := by
  unfold escapeChar at h
  split at h
  case h_8 =>
    split at h
    · have hhigh : 0x20 ≤ (hexDigit (c.toNat / 16)).toNat := hexDigit_printable (by omega)
      have hlow : 0x20 ≤ (hexDigit (c.toNat % 16)).toNat := hexDigit_printable (by omega)
      simp only [unicodeEscape, List.mem_cons, List.not_mem_nil, or_false] at h
      rcases h with rfl | rfl | rfl | rfl | rfl | rfl <;> first | assumption | decide
    · cases List.mem_singleton.mp h
      omega
  all_goals
    simp only [List.mem_cons, List.not_mem_nil, or_false] at h
    rcases h with rfl | rfl <;> decide

/-- No control character stands in a literal as it is. -/
theorem literal_printable (h : c ∈ (literal s).toList) : 0x20 ≤ c.toNat := by
  rw [toList_literal, List.mem_cons, List.mem_append, List.mem_singleton] at h
  rcases h with rfl | h | rfl
  · decide
  · obtain ⟨d, -, hd⟩ := List.mem_flatMap.mp h
    exact escapeChar_printable hd
  · decide

end HandlerHost.Json
