import HandlerHost.Proofs.Text.Natural
import HandlerHost.Proofs.Wire.Response

/-!
The status of a coerced value. It is the number that the field holds, as an integer or written as a
text, if a status can be that number. Everything else gives the default, also a number that would
be a status if it were cut to the bits that a status has.
-/
namespace HandlerHost.Response

open Json (Value)
open Text (Written)

variable {raw : Value} {field : Option Value} {s : String} {n : Nat}

theorem statusCode_ofValue : (ofValue raw).statusCode = statusOf (raw.field? "statusCode") := by
  cases raw <;> rfl

theorem statusWord?_string {w : UInt64} :
    statusWord? (some (.string s)) = some w ↔ Written w.toNat s.toList := Text.word?_trimChars

/-- A text with a status written in it is coerced to that status. -/
theorem toNat_statusOf_written (h : Written n s.toList) (hn : n < UInt16.size) :
    (statusOf (some (.string s))).toNat = n := by
  have hs : UInt16.size < UInt64.size := by decide
  have hw : (UInt64.ofNat n).toNat = n := UInt64.toNat_ofNat_of_lt' (Nat.lt_trans hn hs)
  rw [← hw] at h
  rw [toNat_statusOf, statusWord?_string.mpr h]
  dsimp only
  rw [hw, if_pos hn]

/-- A text with no number in it, or only with one that is no status, is coerced to the default. -/
theorem toNat_statusOf_unwritten (h : ∀ n, Written n s.toList → UInt16.size ≤ n) :
    (statusOf (some (.string s))).toNat = 200 := by
  rw [toNat_statusOf]
  cases hw : statusWord? (some (.string s)) with
  | none => rfl
  | some w => exact if_neg (Nat.not_lt.mpr (h _ (statusWord?_string.mp hw)))

theorem toNat_statusOf_other (hn : ∀ n, field ≠ some (.number n))
    (hs : ∀ s, field ≠ some (.string s)) : (statusOf field).toNat = 200 := by
  have hw : statusWord? field = none := by
    rw [statusWord?.eq_def]
    split
    · exact absurd rfl (hn _)
    · exact absurd rfl (hn _)
    · exact absurd rfl (hs _)
    · rfl
  rw [toNat_statusOf, hw]

/-- Of every value whose status field is no binary fraction the status is told exactly. An integer
counts if a status can be that number. A text counts if it has such a number written in it: digits,
as many as there may be, behind a plus sign or none and with white space around them. In all other
cases the status is the default. -/
theorem statusCode_exact :
    (∀ i, raw.field? "statusCode" = some (.number (.integer i)) →
      (ofValue raw).statusCode.toNat = if 0 ≤ i ∧ i ≤ 65535 then i.toNat else 200) ∧
    (∀ s, raw.field? "statusCode" = some (.string s) →
      (∀ n, Written n s.toList → n ≤ 65535 → (ofValue raw).statusCode.toNat = n) ∧
      ((∀ n, Written n s.toList → 65535 < n) → (ofValue raw).statusCode.toNat = 200)) ∧
    ((∀ n, raw.field? "statusCode" ≠ some (.number n)) →
      (∀ s, raw.field? "statusCode" ≠ some (.string s)) →
      (ofValue raw).statusCode.toNat = 200) := by
  have hsize : UInt16.size = 65536 := rfl
  rw [statusCode_ofValue]
  refine ⟨?_, ?_, toNat_statusOf_other⟩
  · intro i hi
    have hs : (statusOf (some (.ofInt i))).toNat = _ := toNat_statusOf_integer
    rw [hi, ← Value.ofInt, hs, hsize]
    split <;> split <;> omega
  · intro s hs
    rw [hs]
    refine ⟨fun n hn hle => toNat_statusOf_written hn (by omega), fun h => ?_⟩
    exact toNat_statusOf_unwritten fun n hn => h n hn

/-- Zeros in front, an exotic blank and a line break; a number that is 404 in its last 64 bits; and
one that is 404 in its last sixteen. -/
theorem statusCode_exact_padded :
    let text := "\u2003+000404\n"
    let long := "18446744073709552020"
    (ofValue (.object [("statusCode", .string text)])).statusCode.toNat = 404 ∧
      (ofValue (.object [("statusCode", .string long)])).statusCode.toNat = 200 ∧
      (ofValue (.object [("statusCode", .ofNat 65940)])).statusCode.toNat = 200 := by
  intro text long
  have htext : Written 404 text.toList := by
    refine ⟨['\u2003'], ['+'], ['0', '0', '0', '4', '0', '4'], ['\n'], ?_, .inr rfl, ?_, ?_, by decide⟩
    · exact List.forall_mem_singleton.mpr rfl
    · exact ⟨by simp, List.all_eq_true.mp rfl, rfl⟩
    · exact List.forall_mem_singleton.mpr rfl
  have hlong : Written 18446744073709552020 long.toList := by
    refine ⟨[], [], long.toList, [], by simp [Text.Blanks], .inl rfl, ?_, by simp [Text.Blanks], ?_⟩
    · exact ⟨by decide, List.all_eq_true.mp (by decide), by decide⟩
    · simp
  refine ⟨(statusCode_exact.2.1 text rfl).1 404 htext (by omega), ?_, ?_⟩
  · apply (statusCode_exact.2.1 long rfl).2
    intro n hn
    rw [hn.unique hlong]
    omega
  · exact statusCode_exact.1 65940 rfl

end HandlerHost.Response
