import HandlerHost.Proofs.Json.Decoding
import HandlerHost.Proofs.Json.Printing

/-!
Values through their texts. A value with integers only, and brackets that nest no deeper than a
reader allows, comes back from what is written for it, in either form and with blanks around it.
-/
namespace HandlerHost.Json

variable {α : Type} {d : Decoder α} {v : Value} {a : α}

/-- A reader of the value's texts reads both forms in which it is written. -/
theorem decode_written (hd : d.Reads v a) (hi : v.Integral) (hn : v.depth ≤ maxDepth) :
    decode d v.compact = .ok a ∧ decode d v.pretty = .ok a ∧
      decode d (v.pretty ++ "\n") = .ok a := by
  have hnewline : Blank ['\n'] := by simp [Blank, isSpace]
  refine ⟨?_, ?_, ?_⟩
  · exact decode_of_reads hd (Value.spells_compact hi) hn blank_nil blank_nil (by simp)
  · exact decode_of_reads hd (Value.spells_pretty hi) hn blank_nil blank_nil (by simp)
  · exact decode_of_reads hd (Value.spells_pretty hi) hn blank_nil hnewline (by simp)

namespace Value

theorem read_compact (hi : v.Integral) (hn : v.depth ≤ maxDepth) :
    Value.read v.compact = .ok v.ordered :=
  (decode_written Decoder.reads_value hi hn).1

/-- What a text can denote comes back as it is. -/
theorem read_compact_of_canonical (hc : v.Canonical) (he : v.Exact) (hn : v.depth ≤ maxDepth) :
    Value.read v.compact = .ok v := by
  have hread : Value.read v.compact = .ok v.ordered := read_compact (integral_of_canonical hc he) hn
  rwa [ordered_of_canonical hc] at hread

theorem read_pretty (hi : v.Integral) (hn : v.depth ≤ maxDepth) :
    Value.read v.pretty = .ok v.ordered :=
  (decode_written Decoder.reads_value hi hn).2.1

end Value

theorem read_literal (s : String) : Value.read (literal s) = .ok (.string s) :=
  Value.read_compact (v := .string s) .string (Nat.zero_le _)

theorem literal_injective : Function.Injective literal := by
  intro s t h
  have hs : Value.read (literal s) = .ok (.string s) := read_literal s
  rw [h, read_literal t] at hs
  cases hs
  rfl

end HandlerHost.Json
