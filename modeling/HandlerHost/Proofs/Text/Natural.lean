import Mathlib.Data.List.Induction
import HandlerHost.Text.Natural
import HandlerHost.Proofs.Text.Blank

/-!
Digits as numbers. A word of 64 bits is read of all digits that denote one, and of no others: what
is read never wraps around, however many digits there are.
-/
namespace HandlerHost.Text

variable {c : Char} {cs ds : List Char} {n value : Nat} {w : UInt64}

theorem isDigit_eq : isDigit c = c.isDigit := by
  simp only [isDigit, Char.isDigit, Char.le_def]

theorem toNat_of_isDigit (h : isDigit c = true) : 48 ≤ c.toNat ∧ c.toNat ≤ 57 := by
  simp only [isDigit, Bool.and_eq_true, decide_eq_true_eq, Char.le_def, UInt32.le_iff_toNat_le] at h
  exact h

theorem digitValue_eq : digitValue c = c.toNat - '0'.toNat := rfl

theorem ofDigitChars_cons : Nat.ofDigitChars 10 (c :: ds) value =
    Nat.ofDigitChars 10 ds (value * 10 + digitValue c) := by
  rw [Nat.ofDigitChars_cons, digitValue_eq, Nat.mul_comm]

theorem le_ofDigitChars : value ≤ Nat.ofDigitChars 10 ds value := by
  rw [Nat.ofDigitChars_eq_ofDigitChars_zero]
  have hp : 0 < Nat.pow 10 ds.length := Nat.pow_pos (by decide)
  exact Nat.le_trans (Nat.le_mul_of_pos_left value hp) (Nat.le_add_right _ _)

/-- Digits that denote a number, with any zeros in front. -/
structure Digits (n : Nat) (ds : List Char) : Prop where
  ne_nil : ds ≠ []
  digits : ∀ c ∈ ds, isDigit c = true
  value : Nat.ofDigitChars 10 ds 0 = n

theorem digitsValue?_eq_some : digitsValue? cs = some n ↔ Digits n cs := by
  have hvalue : cs.foldl (fun n c => n * 10 + digitValue c) 0 = Nat.ofDigitChars 10 cs 0 := by
    generalize 0 = value
    induction cs generalizing value with
    | nil => rfl
    | cons c cs ih => rw [List.foldl_cons, ih, ofDigitChars_cons]
  rw [digitsValue?, hvalue]
  constructor
  · intro h
    split at h
    · cases h
    · rename_i hcs
      simp only [Bool.or_eq_true, not_or, List.isEmpty_iff, Bool.not_eq_true', Bool.not_eq_false,
        List.all_eq_true] at hcs
      exact ⟨hcs.1, hcs.2, Option.some.inj h⟩
  · rintro ⟨hne, hd, hv⟩
    have hall : cs.all isDigit = true := List.all_eq_true.mpr hd
    simp [hne, hall, hv]

/-- What is no digit does not stand among digits. -/
theorem Digits.notMem (h : Digits n ds) (hc : isDigit c = false) : c ∉ ds := fun hmem => by
  simp [h.digits c hmem] at hc

theorem Digits.unique {m : Nat} (hn : Digits n ds) (hm : Digits m ds) : n = m :=
  hn.value.symm.trans hm.value

/-- The digits that a number is usually written with. -/
theorem digits_toDigits (n : Nat) : Digits n (Nat.toDigits 10 n) := by
  refine ⟨Nat.toDigits_ne_nil, fun c hc => ?_, Nat.ofDigitChars_ten_toDigits⟩
  rw [isDigit_eq]
  exact Nat.isDigit_of_mem_toDigits (by decide) (by decide) hc

theorem digitChar_digitValue (h : isDigit c = true) :
    digitValue c < 10 ∧ Nat.digitChar (digitValue c) = c := by
  obtain ⟨hlow, hhigh⟩ := toNat_of_isDigit h
  have hlt : digitValue c < 10 := by rw [digitValue]; omega
  refine ⟨hlt, Char.toNat_inj.mp ?_⟩
  rw [Nat.toNat_digitChar_of_lt_ten hlt, digitValue]
  omega

/-- Without a zero in front there is one way to write a number. -/
theorem Digits.eq_toDigits (h : Digits n ds) (hz : ds.head? ≠ some '0') :
    ds = Nat.toDigits 10 n := by
  obtain ⟨hne, hd, rfl⟩ := h
  induction ds using List.reverseRecOn with
  | nil => exact absurd rfl hne
  | append_singleton ds c ih =>
    obtain ⟨hlt, hchar⟩ := digitChar_digitValue (hd c (by simp))
    have hlast : Nat.toDigits 10 (digitValue c) = [c] := by
      rw [Nat.toDigits_of_lt_base hlt, hchar]
    have hvalue : Nat.ofDigitChars 10 (ds ++ [c]) 0 =
        10 * Nat.ofDigitChars 10 ds 0 + digitValue c := by
      rw [Nat.ofDigitChars_append, ofDigitChars_cons, Nat.ofDigitChars_nil, Nat.mul_comm]
    cases ds with
    | nil =>
      rw [hvalue, Nat.ofDigitChars_nil, Nat.mul_zero, Nat.zero_add, hlast]
      rfl
    | cons d ds =>
      have hrest := ih (by simpa using hz) (List.cons_ne_nil d ds)
        fun c hc => hd c (List.mem_append_left _ hc)
      have hpos : 0 < Nat.ofDigitChars 10 (d :: ds) 0 := by
        apply Nat.pos_of_ne_zero
        intro hzero
        rw [hzero, Nat.toDigits_zero] at hrest
        exact hz (by simp [(List.cons.inj hrest).1])
      rw [hvalue, ← Nat.toDigits_append_toDigits (by decide) hpos hlt, ← hrest, hlast]

/-- A plus sign or none. -/
def PlusSign (sign : List Char) : Prop := sign = [] ∨ sign = ['+']

/-- Digits behind a plus sign or none, with white space around them. -/
def Written (n : Nat) (cs : List Char) : Prop :=
  ∃ before sign ds after, Blanks before ∧ PlusSign sign ∧ Digits n ds ∧ Blanks after ∧
    cs = before ++ (sign ++ ds ++ after)

theorem isBlank_of_isDigit (h : isDigit c = true) : isBlank c = false := by
  obtain ⟨hlow, hhigh⟩ := toNat_of_isDigit h
  simp only [isBlank, Bool.or_eq_false_iff, Bool.and_eq_false_iff, decide_eq_false_iff_not,
    beq_eq_false_iff_ne]
  omega

/-- One more digit, as long as the word holds it. -/
theorem toNat_wordStep (h : w.toNat * 10 + digitValue c < UInt64.size) :
    (w * 10 + UInt64.ofNat (digitValue c)).toNat = w.toNat * 10 + digitValue c := by
  have hs : UInt64.size = 18446744073709551616 := rfl
  have hd : (UInt64.ofNat (digitValue c)).toNat = digitValue c :=
    UInt64.toNat_ofNat_of_lt' (by omega)
  have ht : (10 : UInt64).toNat = 10 := rfl
  rw [UInt64.toNat_add, UInt64.toNat_mul, hd, ht]
  omega

theorem wordAfter?_eq_some {v : UInt64} : wordAfter? v cs = some w ↔
    (∀ c ∈ cs, isDigit c = true) ∧ Nat.ofDigitChars 10 cs v.toNat = w.toNat := by
  induction cs generalizing v with
  | nil => simp [wordAfter?, UInt64.toNat_inj]
  | cons c cs ih =>
    rw [wordAfter?, ofDigitChars_cons, List.forall_mem_cons]
    by_cases hs : (isDigit c && decide (v.toNat * 10 + digitValue c < UInt64.size)) = true
    · rw [if_pos hs, ih]
      simp only [Bool.and_eq_true, decide_eq_true_eq] at hs
      rw [toNat_wordStep hs.2]
      simp [hs.1]
    · -- A digit that the word does not hold leads beyond all words.
      rw [if_neg hs]
      simp only [Bool.and_eq_true, decide_eq_true_eq, not_and, reduceCtorEq, false_iff] at hs ⊢
      rintro ⟨hc, -⟩ hv
      have hle : v.toNat * 10 + digitValue c ≤ w.toNat := hv ▸ le_ofDigitChars
      exact hs hc (Nat.lt_of_le_of_lt hle w.toNat_lt)

theorem wordDigits?_eq_some : wordDigits? cs = some w ↔ Digits w.toNat cs := by
  rw [wordDigits?]
  cases cs with
  | nil =>
    simp only [List.isEmpty_nil, if_true, reduceCtorEq, false_iff]
    exact fun h => h.ne_nil rfl
  | cons c cs =>
    simp only [List.isEmpty_cons, Bool.false_eq_true, if_false, wordAfter?_eq_some]
    exact ⟨fun h => ⟨by simp, h.1, h.2⟩, fun h => ⟨h.digits, h.value⟩⟩

theorem not_digits_cons_plus : ¬ Digits n ('+' :: ds) := fun h =>
  h.notMem rfl List.mem_cons_self

theorem word?_eq_some : word? cs = some w ↔
    ∃ sign ds, PlusSign sign ∧ Digits w.toNat ds ∧ cs = sign ++ ds := by
  constructor
  · intro h
    unfold word? at h
    split at h
    · rename_i cs
      exact ⟨['+'], cs, .inr rfl, wordDigits?_eq_some.mp h, rfl⟩
    · exact ⟨[], cs, .inl rfl, wordDigits?_eq_some.mp h, rfl⟩
  · rintro ⟨sign, ds, rfl | rfl, hd, rfl⟩
    · rw [word?.eq_2 cs, wordDigits?_eq_some.mpr hd]
      rintro ds rfl
      exact not_digits_cons_plus hd
    · exact wordDigits?_eq_some.mpr hd

theorem tight_digits {sign : List Char} (hs : PlusSign sign) (hd : Digits n ds) :
    Tight (sign ++ ds) := by
  apply tight_of_forall
  intro c hc
  rcases List.mem_append.mp hc with hc | hc
  · rcases hs with rfl | rfl
    · cases hc
    · cases List.mem_singleton.mp hc
      rfl
  · exact isBlank_of_isDigit (hd.digits c hc)

/-- A text has one number written in it at most. -/
theorem Written.unique {m : Nat} (hn : Written n cs) (hm : Written m cs) : n = m := by
  obtain ⟨before, sign, ds, after, hb, hs, hd, ha, rfl⟩ := hn
  obtain ⟨before', sign', ds', after', hb', hs', hd', ha', he⟩ := hm
  have ht := trimChars_append hb (tight_digits hs hd) ha
  rw [he, trimChars_append hb' (tight_digits hs' hd') ha'] at ht
  rcases hs with rfl | rfl <;> rcases hs' with rfl | rfl
  · obtain rfl : ds' = ds := ht
    exact hd.unique hd'
  · obtain rfl : '+' :: ds' = ds := ht
    exact absurd hd not_digits_cons_plus
  · obtain rfl : ds' = '+' :: ds := ht
    exact absurd hd' not_digits_cons_plus
  · obtain rfl : ds' = ds := (List.cons.inj ht).2
    exact hd.unique hd'

/-- A trimmed text is read as a word just if that is the number written in it. -/
theorem word?_trimChars : word? (trimChars cs) = some w ↔ Written w.toNat cs := by
  rw [word?_eq_some]
  constructor
  · rintro ⟨sign, ds, hs, hd, ht⟩
    obtain ⟨-, before, after, hb, ha, rfl⟩ := trimChars_eq_iff.mp ht
    exact ⟨before, sign, ds, after, hb, hs, hd, ha, rfl⟩
  · rintro ⟨before, sign, ds, after, hb, hs, hd, ha, rfl⟩
    exact ⟨sign, ds, hs, hd, trimChars_append hb (tight_digits hs hd) ha⟩

end HandlerHost.Text
