import HandlerHost.Proofs.Text.Blank
import HandlerHost.Request
import Mathlib

/-!
The names in a payload. A language is named by one of its names, in letters of either case and with
white space around it; no name stands for two languages. A handler is named by an identifier, which
a regular expression describes.
-/
namespace HandlerHost

open Text (Blanks isBlank)

variable {c : Char} {cs : List Char} {s text : String} {l l' : Language}

namespace Language

/-- A name of the language, whatever the case of its letters, with white space around it. -/
def Named (l : Language) (text : String) : Prop :=
  ∃ before name after, Blanks before ∧ Blanks after ∧ text.toList = before ++ (name ++ after) ∧
    String.ofList (name.map Char.toLower) ∈ l.names

theorem isBlank_of_mem_names (hs : s ∈ l.names) (hc : c ∈ s.toList) : isBlank c = false := by
  have hall : (l.names.all fun s => s.toList.all fun c => !isBlank c) = true := by
    cases l <;> decide
  simpa using List.all_eq_true.mp (List.all_eq_true.mp hall s hs) c hc

theorem eq_of_mem_names (hs : s ∈ l.names) (hs' : s ∈ l'.names) : l = l' := by
  revert s
  cases l <;> cases l' <;> decide

theorem tight_of_mem_names (h : String.ofList (cs.map Char.toLower) ∈ l.names) :
    Text.Tight cs := by
  apply Text.tight_of_forall
  intro c hc
  have hl : isBlank c.toLower = false :=
    isBlank_of_mem_names h (by simpa using List.mem_map_of_mem (f := Char.toLower) hc)
  by_contra hb
  rw [Text.toLower_of_isBlank (by simpa using hb)] at hl
  exact hb hl

/-- A name is looked up trimmed and in lower case. -/
theorem named_iff : l.Named text ↔ Text.lowerAscii (Text.trim text) ∈ l.names := by
  have hlower : Text.lowerAscii (Text.trim text) =
      String.ofList ((Text.trimChars text.toList).map Char.toLower) := by
    apply String.toList_injective
    simp [Text.lowerAscii, Text.trim]
  rw [hlower]
  constructor
  · rintro ⟨before, name, after, hb, ha, ht, hn⟩
    rwa [ht, Text.trimChars_append hb (tight_of_mem_names hn) ha]
  · intro hn
    obtain ⟨-, before, after, hb, ha, ht⟩ :=
      Text.trimChars_eq_iff.mp (rfl : Text.trimChars text.toList = _)
    exact ⟨before, _, after, hb, ha, ht, hn⟩

theorem ofName?_eq_some : ofName? text = some l ↔ l.Named text := by
  rw [named_iff, ofName?]
  constructor
  · intro h
    simpa using List.find?_some h
  · intro h
    cases hf : all.find? fun l => l.names.contains (Text.lowerAscii (Text.trim text)) with
    | none =>
      have hall : l ∈ all := by cases l <;> decide
      exact absurd h (by simpa using List.find?_eq_none.mp hf l hall)
    | some l' =>
      have h' : Text.lowerAscii (Text.trim text) ∈ l'.names := by simpa using List.find?_some hf
      rw [eq_of_mem_names h h']

theorem ofName?_eq_none : ofName? text = none ↔ ∀ l : Language, ¬ l.Named text := by
  simp only [← ofName?_eq_some, Option.eq_none_iff_forall_ne_some]

end Language

/-- The characters from one to another. -/
def charRange (first last : Char) : List Char :=
  (List.range' first.toNat (last.toNat + 1 - first.toNat)).map Char.ofNat

/-- One of some characters. -/
def oneOf : List Char → RegularExpression Char
  | [] => 0
  | c :: cs => .char c + oneOf cs

/-- The class `[A-Za-z_$]`. -/
def startChars : List Char := charRange 'A' 'Z' ++ charRange 'a' 'z' ++ ['_', '$']

/-- The class `[A-Za-z0-9_$]`. -/
def partChars : List Char := startChars ++ charRange '0' '9'

/-- The expression `[A-Za-z_$][A-Za-z0-9_$]*`. -/
def nameForm : RegularExpression Char := oneOf startChars * (oneOf partChars).star

theorem mem_charRange {first last : Char} (h : last.toNat < 0xD800) :
    c ∈ charRange first last ↔ first.toNat ≤ c.toNat ∧ c.toNat ≤ last.toNat := by
  simp only [charRange, List.mem_map, List.mem_range'_1]
  constructor
  · rintro ⟨n, hn, rfl⟩
    have hv : n.isValidChar := .inl (by omega)
    rw [Char.toNat_ofNat, if_pos hv]
    omega
  · intro hc
    exact ⟨c.toNat, by omega, Char.ofNat_toNat c⟩

theorem mem_oneOf {word : List Char} : word ∈ (oneOf cs).matches' ↔ ∃ c ∈ cs, word = [c] := by
  induction cs with
  | nil => simp [oneOf]
  | cons d cs ih =>
    have hd : word ∈ (RegularExpression.char d).matches' ↔ word = [d] := Set.mem_singleton_iff
    rw [oneOf, RegularExpression.matches'_add, Language.mem_add, ih, hd]
    simp

theorem mem_oneOf_star {word : List Char} :
    word ∈ (oneOf cs).star.matches' ↔ ∀ c ∈ word, c ∈ cs := by
  rw [RegularExpression.matches'_star, Language.mem_kstar]
  constructor
  · rintro ⟨words, rfl, hw⟩ c hc
    obtain ⟨w, hmem, hcw⟩ := List.mem_flatten.mp hc
    obtain ⟨d, hd, rfl⟩ := mem_oneOf.mp (hw w hmem)
    rwa [List.mem_singleton.mp hcw]
  · intro hw
    have hflat : (word.map fun c => [c]).flatten = word := by
      rw [← List.flatMap_def, List.flatMap_singleton']
    refine ⟨word.map fun c => [c], hflat.symm, fun w hmem => ?_⟩
    obtain ⟨c, hc, rfl⟩ := List.mem_map.mp hmem
    exact mem_oneOf.mpr ⟨c, hw c hc, rfl⟩

theorem mem_startChars : c ∈ startChars ↔ startsName c = true := by
  have hu : c ∈ charRange 'A' 'Z' ↔ 65 ≤ c.toNat ∧ c.toNat ≤ 90 := mem_charRange (by decide)
  have hl : c ∈ charRange 'a' 'z' ↔ 97 ≤ c.toNat ∧ c.toNat ≤ 122 := mem_charRange (by decide)
  have hc : c.toNat = c.val.toNat := rfl
  simp only [startChars, List.mem_append, hu, hl, List.mem_cons, List.not_mem_nil, or_false,
    startsName, isAsciiLetter, Bool.or_eq_true, Bool.and_eq_true, decide_eq_true_eq, beq_iff_eq,
    Char.le_def, UInt32.le_iff_toNat_le, hc]
  tauto

theorem mem_partChars : c ∈ partChars ↔ continuesName c = true := by
  have hd : c ∈ charRange '0' '9' ↔ 48 ≤ c.toNat ∧ c.toNat ≤ 57 := mem_charRange (by decide)
  have hc : c.toNat = c.val.toNat := rfl
  simp only [partChars, List.mem_append, mem_startChars, hd, continuesName, Text.isDigit,
    Bool.or_eq_true, Bool.and_eq_true, decide_eq_true_eq, Char.le_def, UInt32.le_iff_toNat_le, hc]
  rfl

/-- A handler's name is checked against the expression as a whole. -/
theorem isIdentifier_iff : isIdentifier s = true ↔ s.toList ∈ nameForm.matches' := by
  rw [nameForm, RegularExpression.matches'_mul, Language.mem_mul, isIdentifier]
  cases hs : s.toList with
  | nil =>
    simp only [Bool.false_eq_true, false_iff]
    rintro ⟨first, hf, rest, -, he⟩
    obtain ⟨c, -, rfl⟩ := mem_oneOf.mp hf
    cases he
  | cons c cs =>
    simp only [Bool.and_eq_true, List.all_eq_true]
    constructor
    · rintro ⟨hc, hcs⟩
      exact ⟨[c], mem_oneOf.mpr ⟨c, mem_startChars.mpr hc, rfl⟩, cs,
        mem_oneOf_star.mpr fun d hd => mem_partChars.mpr (hcs d hd), rfl⟩
    · rintro ⟨first, hf, rest, hr, he⟩
      obtain ⟨d, hd, rfl⟩ := mem_oneOf.mp hf
      obtain ⟨rfl, rfl⟩ := List.cons.inj he
      exact ⟨mem_startChars.mp hd, fun e he => mem_partChars.mp (mem_oneOf_star.mp hr e he)⟩

end HandlerHost
