import HandlerHost.Proofs.Json.Literal
import HandlerHost.Proofs.Json.Numeral

/-!
The texts of a value: its tokens in their order with any blanks between them. Numbers are integers
here. A text is told from its first character, and what stands between its tokens is passed over.
-/
namespace HandlerHost.Json

open Text (isDigit)

variable {α : Type} {c : Char} {v : Value} {cs gap before text tail rest : List Char}
  {first : Bool} {closing : Char}

/-- Blanks that may stand between tokens. -/
def Blank (cs : List Char) : Prop := ∀ c ∈ cs, isSpace c = true

/-- What stands before an item: nothing before the first, and a comma before every other. -/
def Separator (first : Bool) (cs : List Char) : Prop :=
  if first then cs = [] else ∃ gap, Blank gap ∧ cs = gap ++ [',']

/-- Items after an opening bracket, with the closing one that ends them. -/
inductive SpellsItems {α : Type} (closing : Char) (spells : α → List Char → Prop) :
    Bool → List α → List Char → Prop
  | nil {first : Bool} {gap : List Char} (hg : Blank gap) :
      SpellsItems closing spells first [] (gap ++ [closing])
  | cons {first : Bool} {a : α} {as : List α} {before gap text tail : List Char}
      (hb : Separator first before) (hg : Blank gap) (ha : spells a text)
      (has : SpellsItems closing spells false as tail) :
      SpellsItems closing spells first (a :: as) (before ++ gap ++ text ++ tail)

/-- A key, a colon and a value. -/
inductive SpellsMember {α : Type} (spells : α → List Char → Prop) :
    String × α → List Char → Prop
  | mk {k : String} {v : α} {key before after text : List Char} (hk : SpellsString k key)
      (hb : Blank before) (ha : Blank after) (hv : spells v text) :
      SpellsMember spells (k, v) (key ++ before ++ ':' :: after ++ text)

/-- The texts of a value, from its first character to its last. -/
inductive Spells : Value → List Char → Prop
  | null : Spells .null ['n', 'u', 'l', 'l']
  | bool {b : Bool} : Spells (.bool b) (boolText b).toList
  | integer {i : Int} (h : Number.fits i = true) :
      Spells (.number (.integer i)) (Number.integer i).text.toList
  | string {s : String} {text : List Char} (h : SpellsString s text) : Spells (.string s) text
  | array {vs : List Value} {tail : List Char} (h : SpellsItems ']' Spells true vs tail) :
      Spells (.array vs) ('[' :: tail)
  | object {ms : List (String × Value)} {tail : List Char}
      (h : SpellsItems '\x7d' (SpellsMember Spells) true ms tail) :
      Spells (.object ms) ('\x7b' :: tail)

theorem blank_nil : Blank [] := by
  intro c hc
  cases hc

theorem separator_true : Separator true [] := rfl

theorem separator_false (hg : Blank gap) : Separator false (gap ++ [',']) := ⟨gap, hg, rfl⟩

/-- A character that a text of the value may begin with. -/
def Value.Opens : Value → Char → Prop
  | .null, c => c = 'n'
  | .bool _, c => c = 't' ∨ c = 'f'
  | .number _, c => c = '-' ∨ isDigit c = true
  | .string _, c => c = '"'
  | .array _, c => c = '['
  | .object _, c => c = '\x7b'

theorem spells_opens (h : Spells v cs) : ∃ c r, cs = c :: r ∧ v.Opens c := by
  cases h with
  | null => exact ⟨_, _, rfl, rfl⟩
  | @bool b =>
    cases b with
    | false => exact ⟨_, _, rfl, .inr rfl⟩
    | true => exact ⟨_, _, rfl, .inl rfl⟩
  | @integer i hf =>
    rw [toList_text_integer]
    split
    · exact ⟨_, _, rfl, .inl rfl⟩
    · cases he : Nat.toDigits 10 i.natAbs with
      | nil => exact absurd he Nat.toDigits_ne_nil
      | cons d ds => exact ⟨d, ds, rfl, .inr (isDigit_of_mem_toDigits (by rw [he]; simp))⟩
  | string h =>
    obtain ⟨inside, -, rfl⟩ := h
    exact ⟨_, _, rfl, rfl⟩
  | array h => exact ⟨_, _, rfl, rfl⟩
  | object h => exact ⟨_, _, rfl, rfl⟩

theorem spells_length (h : Spells v cs) : 0 < cs.length := by
  obtain ⟨c, r, rfl, -⟩ := spells_opens h
  simp

/-- No digit is any of the characters that structure a text. -/
theorem ne_of_isDigit (h : isDigit c = true) {d : Char} (hd : isDigit d = false) : c ≠ d := by
  rintro rfl
  rw [h] at hd
  cases hd

/-- The first character of a value is no blank, no comma and no closing bracket. -/
theorem opens_ne (h : v.Opens c) : isSpace c = false ∧ c ≠ ',' ∧ c ≠ ']' := by
  cases v with
  | null => cases h; decide
  | bool b => rcases h with rfl | rfl <;> decide
  | string s => cases h; decide
  | array vs => cases h; decide
  | object ms => cases h; decide
  | number n =>
    rcases h with rfl | h
    · decide
    · have hs : c ≠ ' ' ∧ c ≠ '\t' ∧ c ≠ '\n' ∧ c ≠ '\r' :=
        ⟨ne_of_isDigit h rfl, ne_of_isDigit h rfl, ne_of_isDigit h rfl, ne_of_isDigit h rfl⟩
      refine ⟨?_, ne_of_isDigit h rfl, ne_of_isDigit h rfl⟩
      simp [isSpace, hs]

/-- Only null begins like null. -/
theorem opens_ne_null (hv : v ≠ .null) (h : v.Opens c) : c ≠ 'n' := by
  cases v with
  | null => contradiction
  | bool b => rcases h with rfl | rfl <;> decide
  | string s => cases h; decide
  | array vs => cases h; decide
  | object ms => cases h; decide
  | number n =>
    rcases h with rfl | h
    · decide
    · exact ne_of_isDigit h rfl

theorem skipSpace_cons (hc : isSpace c = false) : skipSpace (c :: rest) = c :: rest := by
  simp [skipSpace, hc]

theorem skipSpace_blank (hg : Blank gap) : skipSpace (gap ++ rest) = skipSpace rest := by
  induction gap with
  | nil => rfl
  | cons c gap ih =>
    have hc : isSpace c = true := hg c List.mem_cons_self
    rw [List.cons_append, skipSpace, List.dropWhile_cons_of_pos hc]
    exact ih fun d hd => hg d (List.mem_cons_of_mem _ hd)

theorem skipSpace_spells (hg : Blank gap) (h : Spells v cs) :
    skipSpace (gap ++ (cs ++ rest)) = cs ++ rest := by
  obtain ⟨c, r, rfl, ho⟩ := spells_opens h
  rw [skipSpace_blank hg, List.cons_append, skipSpace_cons (opens_ne ho).1]

theorem ends_blank (hg : Blank gap) (hr : Ends rest) : Ends (gap ++ rest) := by
  cases gap with
  | nil => exact hr
  | cons c gap => exact ends_cons (.inl (hg c List.mem_cons_self))

/-- A value ends where further items or the closing bracket follow. -/
theorem ends_items {as : List α} {spells : α → List Char → Prop}
    (hc : closing = ']' ∨ closing = '\x7d')
    (h : SpellsItems closing spells false as tail) : Ends (tail ++ rest) := by
  cases h with
  | nil hg =>
    rw [List.append_assoc]
    exact ends_blank hg (ends_cons (.inr (.inr hc)))
  | cons hb hg ha has =>
    obtain ⟨gap, hgap, rfl⟩ := hb
    simp only [List.append_assoc]
    exact ends_blank hgap (ends_cons (.inr (.inl rfl)))

theorem items_length {as : List α} {spells : α → List Char → Prop}
    (h : SpellsItems closing spells first as tail) : 0 < tail.length := by
  induction h with
  | nil hg => simp
  | cons hb hg ha has ih =>
    simp only [List.length_append]
    omega

end HandlerHost.Json
