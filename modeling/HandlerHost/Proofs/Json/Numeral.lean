import HandlerHost.Json.Scan
import HandlerHost.Json.Writer
import HandlerHost.Proofs.Text.Natural

/-!
Numerals of integers. Digits are followed to their end as long as their number fits in 64 bits, and
the numeral that is written for an integer is read as that integer.
-/
namespace HandlerHost.Json

open Text (isDigit digitValue isDigit_eq le_ofDigitChars ofDigitChars_cons)

variable {c : Char} {ds rest : List Char} {n value count : Nat} {i : Int} {negative : Bool}

/-- No numeral goes on here: a blank, a separator or a closing bracket follows, or nothing. -/
def Ends (rest : List Char) : Prop :=
  ∀ c, rest.head? = some c → isSpace c = true ∨ c = ',' ∨ c = ']' ∨ c = '\x7d'

theorem ends_nil : Ends [] := by
  intro c hc
  cases hc

theorem ends_cons (h : isSpace c = true ∨ c = ',' ∨ c = ']' ∨ c = '\x7d') : Ends (c :: rest) := by
  intro d hd
  cases hd
  exact h

theorem not_isDigit_of_ends (h : Ends (c :: rest)) : isDigit c = false := by
  have hc := h c rfl
  simp only [isSpace, Bool.or_eq_true, beq_iff_eq, or_assoc] at hc
  rcases hc with rfl | rfl | rfl | rfl | rfl | rfl | rfl <;> rfl

/-- All digits are taken if their number fits. -/
theorem scanSignificand_digits (hd : ∀ c ∈ ds, isDigit c = true)
    (hv : Nat.ofDigitChars 10 ds value < UInt64.size) (hr : Ends rest) :
    scanSignificand value count (ds ++ rest) =
      (Nat.ofDigitChars 10 ds value, count + ds.length, rest) := by
  induction ds generalizing value count with
  | nil =>
    cases rest with
    | nil => simp [scanSignificand]
    | cons c rest => simp [scanSignificand, not_isDigit_of_ends hr]
  | cons c ds ih =>
    rw [ofDigitChars_cons] at hv ⊢
    have hc : isDigit c = true := hd c List.mem_cons_self
    have hn : value * 10 + digitValue c < UInt64.size := Nat.lt_of_le_of_lt le_ofDigitChars hv
    rw [List.cons_append, scanSignificand, hc, Bool.true_and, if_pos (by simpa using hn),
      ih (fun d h => hd d (List.mem_cons_of_mem _ h)) hv]
    simp only [List.length_cons, Prod.mk.injEq, and_true, true_and]
    omega

theorem isDigit_of_mem_toDigits (h : c ∈ Nat.toDigits 10 n) : isDigit c = true := by
  rw [isDigit_eq]
  exact Nat.isDigit_of_mem_toDigits (by decide) (by decide) h

/-- A positive number is written without a zero in front. -/
theorem head_toDigits (hn : 0 < n) : (Nat.toDigits 10 n).head? ≠ some '0' := by
  induction n using Nat.strongRecOn with
  | ind n ih =>
    by_cases hs : n < 10
    · rw [Nat.toDigits_of_lt_base hs]
      simp only [List.head?_cons, ne_eq, Option.some.injEq, Nat.digitChar_eq_zero]
      omega
    · have hb : 10 ≤ n := Nat.not_lt.mp hs
      have hh := ih (n / 10) (by omega) (by omega)
      rw [Nat.toDigits_of_base_le (by decide) hb]
      cases he : Nat.toDigits 10 (n / 10) with
      | nil => exact absurd he Nat.toDigits_ne_nil
      | cons d ds => simpa [he] using hh

theorem scanTail_ends (hr : Ends rest) :
    scanTail negative n rest = .ok (wholeNumber negative n, rest) := by
  cases rest with
  | nil => rfl
  | cons c rest =>
    have hc := hr c rfl
    simp only [isSpace, Bool.or_eq_true, beq_iff_eq, or_assoc] at hc
    rcases hc with rfl | rfl | rfl | rfl | rfl | rfl | rfl <;> rfl

/-- Digits are read as the number that they denote. -/
theorem scanNumber_toDigits (hn : n < UInt64.size) (hr : Ends rest) :
    scanNumber negative (Nat.toDigits 10 n ++ rest) = .ok (wholeNumber negative n, rest) := by
  by_cases hz : n = 0
  · subst hz
    rw [Nat.toDigits_zero, List.singleton_append, scanNumber.eq_def]
    cases rest with
    | nil => exact scanTail_ends hr
    | cons c rest => simpa [not_isDigit_of_ends hr] using scanTail_ends hr
  · have hv : Nat.ofDigitChars 10 (Nat.toDigits 10 n) 0 = n := Nat.ofDigitChars_ten_toDigits
    have hh := head_toDigits (n := n) (by omega)
    have hd : ∀ c ∈ Nat.toDigits 10 n, isDigit c = true := fun c => isDigit_of_mem_toDigits
    cases he : Nat.toDigits 10 n with
    | nil => exact absurd he Nat.toDigits_ne_nil
    | cons d ds =>
      rw [he] at hv hh hd
      have hz : d ≠ '0' := by
        rintro rfl
        exact hh rfl
      have hdd : isDigit d = true := hd d List.mem_cons_self
      have hs : Nat.ofDigitChars 10 ds (digitValue d) = n := by
        rw [Nat.ofDigitChars_cons, Nat.mul_zero, Nat.zero_add] at hv
        exact hv
      have hsig : scanSignificand (digitValue d) 1 (ds ++ rest) = (n, 1 + ds.length, rest) := by
        rw [scanSignificand_digits (fun c hc => hd c (List.mem_cons_of_mem _ hc)) (hs ▸ hn) hr, hs]
      rw [List.cons_append, scanNumber.eq_def]
      simp only [hdd, if_true, hsig]
      cases rest with
      | nil => exact scanTail_ends hr
      | cons c rest => simpa [not_isDigit_of_ends hr] using scanTail_ends hr

/-- The digits of an integer stand after a minus sign if it is negative. -/
theorem toList_text_integer :
    (Number.integer i).text.toList =
      if i < 0 then '-' :: Nat.toDigits 10 i.natAbs else Nat.toDigits 10 i.natAbs := by
  cases i with
  | ofNat n => simp [Number.text, toString, Int.repr, Nat.repr]
  | negSucc n => simp [Number.text, toString, Int.repr, Nat.repr, Int.negSucc_lt_zero]

theorem bounds_of_fits (h : Number.fits i = true) :
    -9223372036854775808 ≤ i ∧ i < 18446744073709551616 := by
  have hl : Int64.minValue.toInt = -9223372036854775808 := rfl
  have hu : (UInt64.size : Int) = 18446744073709551616 := rfl
  simp only [Number.fits, Bool.and_eq_true, decide_eq_true_eq, hl, hu] at h
  exact h

/-- An integer of 64 bits is what its digits denote after its sign. -/
theorem wholeNumber_of_fits (h : Number.fits i = true) :
    wholeNumber (decide (i < 0)) i.natAbs = .integer i := by
  obtain ⟨hl, -⟩ := bounds_of_fits h
  by_cases hi : i < 0
  · have hn : -(i.natAbs : Int) = i := by omega
    have hc : (i.natAbs != 0 && decide (Int64.minValue.toInt ≤ i)) = true := by
      rw [Bool.and_eq_true, bne_iff_ne, decide_eq_true_eq]
      exact ⟨by omega, hl⟩
    rw [wholeNumber, hn, decide_eq_true hi, hc]
    rfl
  · have hn : (i.natAbs : Int) = i := by omega
    rw [wholeNumber, hn, decide_eq_false hi]
    rfl

theorem natAbs_lt_of_fits (h : Number.fits i = true) : i.natAbs < UInt64.size := by
  obtain ⟨hl, hu⟩ := bounds_of_fits h
  have hs : UInt64.size = 18446744073709551616 := rfl
  omega

end HandlerHost.Json
