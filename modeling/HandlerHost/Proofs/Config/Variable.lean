import HandlerHost.Proofs.Config.Layers
import HandlerHost.Proofs.Decimal.Numeral

/-!
What a variable of the environment holds. A value is a truth value if it is the name of one in any
case, an integer if it is digits behind a sign or none and 64 bits hold it, or another number if it
spells one; any other value is the text that it is.
-/
namespace HandlerHost.Config

open Text (Digits digitsValue?_eq_some digits_toDigits)
open Decimal (Extended Sign Spelled signed sign_of_splitSign splitSign_append unsigned_digits)

variable {s : String} {i : Int} {v : Setting} {cs : List Char}

/-- Digits behind a sign or none. -/
def SignedDigits (i : Int) (cs : List Char) : Prop :=
  ∃ negative sign n ds, Sign negative sign ∧ Digits n ds ∧ cs = sign ++ ds ∧ i = signed negative n

/-- The integers of 64 bits. -/
def FitsSigned (i : Int) : Prop := Int64.minValue.toInt ≤ i ∧ i ≤ Int64.maxValue.toInt

theorem signed?_eq_some : signed? s = some i ↔ SignedDigits i s.toList ∧ FitsSigned i := by
  constructor
  · intro h
    cases hsplit : Extended.splitSign s.toList with
    | mk negative ds =>
      simp only [signed?, hsplit, Option.bind_eq_bind, Option.bind_eq_some_iff,
        Option.ite_none_right_eq_some, Bool.and_eq_true, decide_eq_true_eq] at h
      obtain ⟨n, hn, hfits, hi⟩ := h
      obtain ⟨sign, hs, hcs⟩ := sign_of_splitSign hsplit
      cases hi
      exact ⟨⟨negative, sign, n, ds, hs, digitsValue?_eq_some.mp hn, hcs, rfl⟩, hfits⟩
  · rintro ⟨⟨negative, sign, n, ds, hs, hd, hcs, rfl⟩, hfits⟩
    have hsplit : Extended.splitSign s.toList = (negative, ds) := by
      rw [hcs, splitSign_append hs (unsigned_digits hd)]
    simp only [signed?, hsplit, Option.bind_eq_bind, digitsValue?_eq_some.mpr hd,
      Option.bind_some, Option.ite_none_right_eq_some, Bool.and_eq_true, decide_eq_true_eq]
    exact ⟨hfits, rfl⟩

theorem toList_toString : (toString i).toList =
    if i < 0 then '-' :: Nat.toDigits 10 i.natAbs else Nat.toDigits 10 i.natAbs :=
  Json.toList_text_integer

theorem signedDigits_toString (i : Int) : SignedDigits i (toString i).toList := by
  rw [toList_toString]
  split
  · rename_i hi
    have hs : i = signed true i.natAbs := by simp only [signed, if_true]; omega
    exact ⟨true, ['-'], _, _, .minus, digits_toDigits _, rfl, hs⟩
  · rename_i hi
    have hs : i = signed false i.natAbs := (Int.natAbs_of_nonneg (Int.not_lt.mp hi)).symm
    exact ⟨false, [], _, _, .none, digits_toDigits _, rfl, hs⟩

/-- An integer as it is usually written: without a plus, without a zero in front of another digit
and without a minus in front of zero. -/
inductive UsualInteger : List Char → Prop
  | zero : UsualInteger ['0']
  | positive {n : Nat} {ds : List Char} (hd : Digits n ds) (hz : ds.head? ≠ some '0') :
      UsualInteger ds
  | negative {n : Nat} {ds : List Char} (hd : Digits n ds) (hz : ds.head? ≠ some '0') :
      UsualInteger ('-' :: ds)

theorem usualInteger_toString (i : Int) : UsualInteger (toString i).toList := by
  rw [toList_toString]
  split
  · exact .negative (digits_toDigits _) (Json.head_toDigits (by omega))
  · by_cases hn : i.natAbs = 0
    · rw [hn, Nat.toDigits_zero]
      exact .zero
    · exact .positive (digits_toDigits _) (Json.head_toDigits (Nat.pos_of_ne_zero hn))

/-- Digits behind a minus or none are written as usual in one way. -/
theorem toList_toString_eq (h : SignedDigits i cs) (hu : UsualInteger cs) :
    (toString i).toList = cs := by
  obtain ⟨negative, sign, n, ds, hs, hd, rfl, rfl⟩ := h
  have hminus : '-' ∉ ds := hd.notMem rfl
  rw [toList_toString]
  generalize hcs : sign ++ ds = cs at hu
  cases hs with
  | none =>
    obtain rfl : ds = cs := hcs
    have hnonneg : ¬ signed false n < 0 := Int.not_lt.mpr (Int.natCast_nonneg n)
    rw [if_neg hnonneg]
    cases hu with
    | zero =>
      obtain rfl : 0 = n := hd.value
      rfl
    | positive _ hz => exact (hd.eq_toDigits hz).symm
    | negative _ _ => exact absurd List.mem_cons_self hminus
  | plus =>
    cases hu with
    | zero => cases hcs
    | positive hd' _ => exact absurd (hcs ▸ List.mem_cons_self) (hd'.notMem (c := '+') rfl)
    | negative _ _ => cases hcs
  | minus =>
    cases hu with
    | zero => cases hcs
    | positive hd' _ =>
      exact absurd (hcs ▸ List.mem_cons_self) (hd'.notMem (c := '-') rfl)
    | @negative _ ds' _ hz =>
      obtain rfl : ds = ds' := (List.cons.inj hcs).2
      have hne : n ≠ 0 := by
        rintro rfl
        have hzero := hd.eq_toDigits hz
        rw [Nat.toDigits_zero] at hzero
        exact hz (by rw [hzero]; rfl)
      have hneg : signed true n < 0 := by simp only [signed, if_true]; omega
      have habs : (signed true n).natAbs = n := by simp only [signed, if_true]; omega
      rw [if_pos hneg, habs, ← hd.eq_toDigits hz]

theorem toString_eq_iff (h : SignedDigits i s.toList) : toString i = s ↔ UsualInteger s.toList := by
  constructor
  · rintro rfl
    exact usualInteger_toString i
  · exact fun hu => String.toList_inj.mp (toList_toString_eq h hu)

theorem signed?_toString (h : FitsSigned i) : signed? (toString i) = some i :=
  signed?_eq_some.mpr ⟨signedDigits_toString i, h⟩

/-- The name of a truth value. -/
def truthName (b : Bool) : String := if b then "true" else "false"

/-- What a value is taken for. -/
inductive Held (s : String) : Setting → Prop
  | truth {b : Bool} (hb : Text.lowerAscii s = truthName b) : Held s (.bool b)
  | integer {i : Int} (hi : SignedDigits i s.toList) (hf : FitsSigned i) : Held s (.integer i)
  | real {x : Extended} (hb : ∀ b, Text.lowerAscii s ≠ truthName b)
      (hi : ∀ i, SignedDigits i s.toList → ¬ FitsSigned i) (hx : Spelled x s.toList) :
      Held s (.real x)
  | text (hb : ∀ b, Text.lowerAscii s ≠ truthName b)
      (hi : ∀ i, SignedDigits i s.toList → ¬ FitsSigned i) (hx : ∀ x, ¬ Spelled x s.toList) :
      Held s (.text s)

theorem signed?_eq_none : signed? s = none ↔ ∀ i, SignedDigits i s.toList → ¬ FitsSigned i := by
  rw [Option.eq_none_iff_forall_ne_some]
  exact forall_congr' fun i => by rw [Ne, signed?_eq_some, not_and]

theorem ofText?_eq_none : Extended.ofText? s = none ↔ ∀ x, ¬ Spelled x s.toList := by
  rw [Option.eq_none_iff_forall_ne_some]
  exact forall_congr' fun x => by rw [Ne, Decimal.ofText?_eq_some]

/-- Where no truth value is named, numbers are looked for. -/
theorem variableSetting_of_ne (hb : ∀ b, Text.lowerAscii s ≠ truthName b) :
    variableSetting s = match signed? s, Extended.ofText? s with
      | some i, _ => .integer i
      | none, some x => .real x
      | none, none => .text s := by
  unfold variableSetting
  split
  · rename_i htrue
    exact absurd htrue (hb true)
  · rename_i hfalse
    exact absurd hfalse (hb false)
  · rfl

theorem held_iff : Held s v ↔ variableSetting s = v := by
  constructor
  · intro h
    cases h with
    | @truth b hb =>
      unfold variableSetting
      cases b <;> simp only [hb, truthName] <;> rfl
    | integer hi hf => exact variableSetting_of_signed? (signed?_eq_some.mpr ⟨hi, hf⟩)
    | real hb hi hx =>
      rw [variableSetting_of_ne hb, signed?_eq_none.mpr hi, Decimal.ofText?_eq_some.mpr hx]
    | text hb hi hx =>
      rw [variableSetting_of_ne hb, signed?_eq_none.mpr hi, ofText?_eq_none.mpr hx]
  · rintro rfl
    by_cases hb : ∃ b, Text.lowerAscii s = truthName b
    · obtain ⟨b, hb⟩ := hb
      have hv : variableSetting s = .bool b := by
        unfold variableSetting
        cases b <;> simp only [hb, truthName] <;> rfl
      rw [hv]
      exact .truth hb
    · have hb : ∀ b, Text.lowerAscii s ≠ truthName b := not_exists.mp hb
      rw [variableSetting_of_ne hb]
      cases hi : signed? s with
      | some i =>
        obtain ⟨hi, hf⟩ := signed?_eq_some.mp hi
        exact .integer hi hf
      | none =>
        cases hx : Extended.ofText? s with
        | some x => exact .real hb (signed?_eq_none.mp hi) (Decimal.ofText?_eq_some.mp hx)
        | none => exact .text hb (signed?_eq_none.mp hi) (ofText?_eq_none.mp hx)

end HandlerHost.Config
