import HandlerHost.Proofs.Json.Reading

/-!
Whatever a text denotes is canonical: integers fit in 64 bits, since digits are taken only as long
as they do, and members are inserted in their order.
-/
namespace HandlerHost.Json

open Text (Entries isDigit digitValue)

variable {negative : Bool} {significand value count n : Nat} {exponent : Int} {x : Number}
  {cs rest : List Char}

theorem exists_of_map {α β : Type} {e : Except Fault α} {f : α → β} {b : β} (h : e.map f = .ok b) :
    ∃ a, e = .ok a ∧ b = f a := by
  cases e with
  | error _ => cases h
  | ok a =>
    cases h
    exact ⟨a, rfl, rfl⟩

theorem scanSignificand_lt (hv : value < UInt64.size) :
    (scanSignificand value count cs).1 < UInt64.size := by
  induction cs generalizing value count with
  | nil => exact hv
  | cons c cs ih =>
    rw [scanSignificand]
    split
    · rename_i h
      simp only [Bool.and_eq_true, decide_eq_true_eq] at h
      exact ih h.2
    · exact hv

theorem held_wholeNumber (hn : n < UInt64.size) : (wholeNumber negative n).Held := by
  have hs : (Int64.minValue.toInt ≤ 0) := by decide
  rw [wholeNumber]
  split
  · simp only [Number.Held, Number.fits, Bool.and_eq_true, decide_eq_true_eq]
    omega
  · split
    · rename_i h
      simp only [Bool.and_eq_true, decide_eq_true_eq] at h
      simp only [Number.Held, Number.fits, Bool.and_eq_true, decide_eq_true_eq]
      exact ⟨h.2, by omega⟩
    · trivial

theorem held_finishReal (h : finishReal negative significand exponent cs = .ok (x, rest)) :
    x.Held := by
  rw [finishReal] at h
  split at h
  · cases h
    trivial
  · cases h

theorem held_scanExponent (h : scanExponent negative significand exponent cs = .ok (x, rest)) :
    x.Held := by
  unfold scanExponent at h
  dsimp only at h
  split at h
  · cases h
  · split at h
    · split at h
      · exact held_finishReal h
      -- the sign decides whether an exponent that is too great is a fault
      · split at h
        all_goals
          dsimp only at h
          split at h
          · cases h
          · cases h
            trivial
    · cases h

theorem held_scanScale (h : scanScale negative significand exponent cs = .ok (x, rest)) :
    x.Held := by
  rw [scanScale.eq_def] at h
  split at h
  · exact held_scanExponent h
  · exact held_scanExponent h
  · exact held_finishReal h

theorem held_scanFraction (h : scanFraction negative significand exponent cs = .ok (x, rest)) :
    x.Held := by
  unfold scanFraction at h
  dsimp only at h
  split at h
  · split at h
    · exact held_scanScale h
    · split at h
      · cases h
      · exact held_scanScale h
  · split at h
    · cases h
    · exact held_scanScale h

theorem held_scanTail (hn : significand < UInt64.size)
    (h : scanTail negative significand cs = .ok (x, rest)) : x.Held := by
  rw [scanTail.eq_def] at h
  split at h
  · exact held_scanFraction h
  · exact held_scanExponent h
  · exact held_scanExponent h
  · cases h
    exact held_wholeNumber hn

theorem held_scanLongTail (h : scanLongTail negative significand cs = .ok (x, rest)) : x.Held := by
  unfold scanLongTail at h
  dsimp only at h
  split at h
  · exact held_scanFraction h
  · exact held_scanScale h

theorem digitValue_lt {c : Char} (h : isDigit c = true) : digitValue c < UInt64.size := by
  simp only [isDigit, Bool.and_eq_true, decide_eq_true_eq, Char.le_def, UInt32.le_iff_toNat_le] at h
  have h9 : '9'.val.toNat = 57 := rfl
  have hs : UInt64.size = 18446744073709551616 := rfl
  have hv : digitValue c = c.val.toNat - 48 := rfl
  omega

/-- A numeral denotes an integer of 64 bits or a binary fraction. -/
theorem held_scanNumber (h : scanNumber negative cs = .ok (x, rest)) : x.Held := by
  have hz : 0 < UInt64.size := by decide
  rw [scanNumber.eq_def] at h
  split at h
  · cases h
  · split at h
    · split at h
      · cases h
      · exact held_scanTail hz h
    · exact held_scanTail hz h
  · split at h
    · rename_i c r _ hd
      have hs : (scanSignificand (digitValue c) 1 r).1 < UInt64.size :=
        scanSignificand_lt (digitValue_lt hd)
      dsimp only at h
      split at h
      · split at h
        · exact held_scanLongTail h
        · exact held_scanTail hs h
      · exact held_scanTail hs h
    · cases h

namespace Value

variable {steps depth : Nat} {acc : List Value} {first : Bool} {ms : List (String × Value)}
  {v : Value}

theorem canonical_insert {k : String} (hv : Canonical v) (hc : Canonical (.object ms)) :
    Canonical (.object (Entries.insert k v ms)) := by
  cases hc with
  | object ha hm =>
    refine .object (Entries.ascending_insert ha) ?_
    intro m h
    rcases Entries.mem_insert h with rfl | h
    · exact hv
    · exact hm m h

/-- What the three readers of values make of a text in some number of steps is canonical. -/
structure Denotes (steps : Nat) : Prop where
  scan : ∀ {depth cs v rest}, scan steps depth cs = .ok (v, rest) → Canonical v
  items : ∀ {depth acc cs v rest}, (∀ w ∈ acc, Canonical w) →
    scanItems steps depth acc cs = .ok (v, rest) → Canonical v
  members : ∀ {depth first ms cs v rest}, Canonical (.object ms) →
    scanMembers steps depth first ms cs = .ok (v, rest) → Canonical v

theorem canonical_scan {steps depth : Nat} (ih : Denotes steps)
    (h : scan (steps + 1) depth cs = .ok (v, rest)) : Canonical v := by
  rw [scan] at h
  split at h
  · cases h
  · obtain ⟨r, -, hv⟩ := exists_of_map h
    cases hv
    exact .null
  · obtain ⟨r, -, hv⟩ := exists_of_map h
    cases hv
    exact .bool
  · obtain ⟨r, -, hv⟩ := exists_of_map h
    cases hv
    exact .bool
  · obtain ⟨n, hn, hv⟩ := exists_of_map h
    cases hv
    exact .number (held_scanNumber hn)
  · obtain ⟨s, -, hv⟩ := exists_of_map h
    cases hv
    exact .string
  · split at h
    · cases h
    · exact ih.items (by simp) h
  · split at h
    · cases h
    · exact ih.members (.object List.Pairwise.nil (by simp)) h
  · split at h
    · obtain ⟨n, hn, hv⟩ := exists_of_map h
      cases hv
      exact .number (held_scanNumber hn)
    · cases h

theorem canonical_scanItems {steps depth : Nat} {acc : List Value} (ih : Denotes steps)
    (hacc : ∀ w ∈ acc, Canonical w) (h : scanItems (steps + 1) depth acc cs = .ok (v, rest)) :
    Canonical v := by
  rw [scanItems] at h
  split at h
  · cases h
  · cases h
    exact .array fun w hw => hacc w (List.mem_reverse.mp hw)
  · split at h
    · cases h
    · rename_i hv
      refine ih.items ?_ h
      intro w hw
      rcases List.mem_cons.mp hw with rfl | hw
      · exact ih.scan hv
      · exact hacc w hw

theorem canonical_scanMembers {steps depth : Nat} (ih : Denotes steps)
    (hms : Canonical (.object ms)) (h : scanMembers (steps + 1) depth first ms cs = .ok (v, rest)) :
    Canonical v := by
  rw [scanMembers] at h
  split at h
  · cases h
  · cases h
    exact hms
  · split at h
    · cases h
    · split at h
      · cases h
      · split at h
        · cases h
        · rename_i hv
          exact ih.members (canonical_insert (ih.scan hv) hms) h

/-- The three readers call each other with one step less. -/
theorem denotes (steps : Nat) : Denotes steps := by
  induction steps with
  | zero =>
    refine ⟨?_, ?_, ?_⟩
    · intro depth cs v rest h
      cases h
    · intro depth acc cs v rest _ h
      cases h
    · intro depth first ms cs v rest _ h
      cases h
  | succ steps ih => exact ⟨canonical_scan ih, canonical_scanItems ih, canonical_scanMembers ih⟩

/-- What a whole text denotes is canonical. -/
theorem canonical_of_read {text : String} (h : Value.read text = .ok v) : Canonical v := by
  obtain ⟨rest, -, hs⟩ := decode_eq_ok.mp h
  exact (denotes _).scan hs

end Value

end HandlerHost.Json
