import HandlerHost.Config.Basic

/-! What validation asks of a configuration: it finds no defect exactly where there is none. -/
namespace HandlerHost

theorem Language.ofId?_eq_none {id : String} :
    Language.ofId? id = none ↔ ∀ l : Language, l.id ≠ id := by
  rw [Language.ofId?, List.find?_eq_none]
  constructor
  · intro h l
    have hl : l ∈ Language.all := by cases l <;> decide
    simpa using h l hl
  · intro h l _
    simpa using h l

namespace Config

/-- A command that replaces the usual ones stands for a language and names a program. -/
structure ValidEntry (id : String) (command : List String) : Prop where
  language : ∃ l : Language, l.id = id
  program : ∃ p args, command = p :: args ∧ Text.blank p = false

structure Valid (c : Config) : Prop where
  default_pos : 0 < c.defaultTimeoutMs
  max_pos : 0 < c.maxTimeoutMs
  default_le_max : c.defaultTimeoutMs ≤ c.maxTimeoutMs
  concurrency_pos : 0 < c.maxConcurrent
  entries : ∀ e ∈ c.interpreters.entries, ValidEntry e.1 e.2

variable {id : String} {command : List String} {c : Config}

theorem entryDefect?_eq_none : entryDefect? id command = none ↔ ValidEntry id command := by
  have hl : (Language.ofId? id).isNone = true ↔ ¬ ∃ l : Language, l.id = id := by
    rw [Option.isNone_iff_eq_none, Language.ofId?_eq_none, not_exists]
  have hp : command.head?.all Text.blank = true ↔
      ¬ ∃ p args, command = p :: args ∧ Text.blank p = false := by
    cases command <;> simp
  rw [entryDefect?]
  split
  · rename_i hid
    exact iff_of_false nofun fun h => hl.mp hid h.language
  · rename_i hid
    split
    · rename_i hblank
      exact iff_of_false nofun fun h => hp.mp hblank h.program
    · rename_i hblank
      refine iff_of_true rfl ⟨?_, ?_⟩
      · exact Classical.byContradiction fun h => hid (hl.mpr h)
      · exact Classical.byContradiction fun h => hblank (hp.mpr h)

theorem word_beq_zero {n : UInt64} : (n == 0) = true ↔ ¬ 0 < n := by
  rw [beq_iff_eq, UInt64.not_lt]
  exact UInt64.le_zero_iff.symm

theorem ite_defect_eq_none {p : Prop} [Decidable p] {d : Defect} {o : Option Defect} :
    (if p then some d else o) = none ↔ ¬ p ∧ o = none := by
  split <;> simp_all

theorem defect?_eq_none : c.defect? = none ↔ c.Valid := by
  rw [defect?, ite_defect_eq_none, ite_defect_eq_none, ite_defect_eq_none, ite_defect_eq_none,
    List.findSome?_eq_none_iff, word_beq_zero, word_beq_zero, word_beq_zero, Decidable.not_not,
    Decidable.not_not, Decidable.not_not, UInt64.not_lt]
  constructor
  · rintro ⟨h₁, h₂, h₃, h₄, h₅⟩
    exact ⟨h₁, h₂, h₃, h₄, fun e he => entryDefect?_eq_none.mp (h₅ e he)⟩
  · rintro ⟨h₁, h₂, h₃, h₄, h₅⟩
    exact ⟨h₁, h₂, h₃, h₄, fun e he => entryDefect?_eq_none.mpr (h₅ e he)⟩

end Config

end HandlerHost
