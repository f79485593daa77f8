import Mathlib.Data.List.TakeWhile
import HandlerHost.Json.Reader
import HandlerHost.Proofs.Json.Canonical
import HandlerHost.Proofs.Json.Spelling

/-!
Every text of a value is read as that value, with the members of its objects in order. A reader
gets along with as many steps as the text has characters.
-/
namespace HandlerHost.Json

open Text (Entries isDigit)

variable {c closing : Char} {v : Value} {gap before text tail rest : List Char} {first : Bool}
  {k : String}

theorem scanEnd_eq_ok : scanEnd rest = .ok () ↔ Blank rest := by
  rw [Blank, ← List.dropWhile_eq_nil_iff, scanEnd, ← skipSpace]
  cases skipSpace rest <;> simp

/-- A text is decoded when its reader leaves nothing but blanks. -/
theorem decode_eq_ok {α : Type} {d : Decoder α} {text : String} {a : α} :
    decode d text = .ok a ↔
      ∃ gap, Blank gap ∧ d (.ofText text.toList) text.toList = .ok (a, gap) := by
  unfold decode
  dsimp only
  cases d (.ofText text.toList) text.toList with
  | error f =>
    constructor
    · intro h
      cases h
    · rintro ⟨gap, -, h⟩
      cases h
  | ok p =>
    obtain ⟨b, rest⟩ := p
    cases he : scanEnd rest with
    | error f =>
      constructor
      · intro h
        simp only [bind, Except.bind, he] at h
        cases h
      · rintro ⟨gap, hg, h⟩
        cases h
        rw [scanEnd_eq_ok.mpr hg] at he
        cases he
    | ok u =>
      simp only [bind, Except.bind, he]
      constructor
      · intro h
        cases h
        exact ⟨rest, scanEnd_eq_ok.mp he, rfl⟩
      · rintro ⟨gap, hg, h⟩
        cases h
        rfl

/-- What follows the closing bracket. -/
theorem drop_closing (hg : Blank gap) (hc : isSpace closing = false) :
    (skipSpace (gap ++ closing :: rest)).drop 1 = rest := by
  rw [skipSpace_blank hg, skipSpace_cons hc]
  rfl

theorem nextItem_closing (hg : Blank gap) : nextItem first (gap ++ ']' :: rest) = .ok none := by
  rw [nextItem, skipSpace_blank hg, skipSpace_cons rfl]
  rfl

theorem nextItem_separator (rest : List Char) (hb : Separator first before) (hg : Blank gap)
    (hv : Spells v text) :
    nextItem first (before ++ gap ++ text ++ rest) = .ok (some (text ++ rest)) := by
  obtain ⟨c, r, rfl, ho⟩ := spells_opens hv
  obtain ⟨hs, hcomma, hclose⟩ := opens_ne ho
  cases first with
  | true =>
    cases hb
    simp only [nextItem, List.nil_append, List.append_assoc, List.cons_append, skipSpace_blank hg,
      skipSpace_cons hs]
    split <;> simp_all
  | false =>
    obtain ⟨gap', hg', rfl⟩ := hb
    simp only [nextItem, List.append_assoc, List.cons_append, List.nil_append,
      skipSpace_blank hg', skipSpace_cons (c := ',') rfl, skipSpace_blank hg, skipSpace_cons hs,
      Bool.false_eq_true, if_false]
    split <;> simp_all

theorem nextKey_closing (hg : Blank gap) : nextKey first (gap ++ '\x7d' :: rest) = .ok none := by
  rw [nextKey, skipSpace_blank hg, skipSpace_cons rfl]
  rfl

theorem nextKey_separator (hb : Separator first before) (hg : Blank gap) :
    nextKey first (before ++ gap ++ '"' :: rest) = .ok (some rest) := by
  cases first with
  | true =>
    cases hb
    simp only [nextKey, List.nil_append, skipSpace_blank hg, skipSpace_cons (c := '"') rfl]
    rfl
  | false =>
    obtain ⟨gap', hg', rfl⟩ := hb
    simp only [nextKey, List.append_assoc, List.cons_append, List.nil_append,
      skipSpace_blank hg', skipSpace_cons (c := ',') rfl, skipSpace_blank hg,
      skipSpace_cons (c := '"') rfl]
    rfl

theorem scanColon_blank (hg : Blank gap) : scanColon (gap ++ ':' :: rest) = .ok rest := by
  rw [scanColon, skipSpace_blank hg, skipSpace_cons rfl]
  rfl

/-- The steps from a member to its value: the key's quote, the key and the colon. -/
theorem member_tokens {α : Type} {v : α} {spells : α → List Char → Prop} (rest : List Char)
    (hb : Separator first before) (hg : Blank gap) (h : SpellsMember spells (k, v) text) :
    ∃ gap' text' inside after, Blank gap' ∧ spells v text' ∧ text'.length < text.length ∧
      nextKey first (before ++ gap ++ text ++ rest) = .ok (some inside) ∧
      scanString [] inside = .ok (k.toList, after) ∧
      scanColon after = .ok (gap' ++ text' ++ rest) := by
  cases h with
  | @mk _ _ key colon gap' text' hk hcolon hgap' hv =>
    obtain ⟨inside, hin, rfl⟩ := hk
    refine ⟨gap', text', inside ++ '"' :: (colon ++ ':' :: (gap' ++ text' ++ rest)),
      colon ++ ':' :: (gap' ++ text' ++ rest), hgap', hv, ?_, ?_, ?_, scanColon_blank hcolon⟩
    · simp only [List.length_append, List.length_cons]
      omega
    · rw [← nextKey_separator hb hg]
      simp
    · rw [scanString_chars hin]
      rfl

namespace Value

variable {steps depth : Nat} {vs acc : List Value} {ms members : List (String × Value)}

/-- The value is read from each of its texts, given a step for every character. -/
def Readable (v : Value) : Prop :=
  ∀ {gap text rest : List Char} {steps depth : Nat}, Blank gap → Spells v text →
    text.length ≤ steps → v.depth ≤ depth → Ends rest →
    scan steps depth (gap ++ text ++ rest) = .ok (v.ordered, rest)

/-- A reader that has steps for a text has one to begin with. -/
theorem exists_succ {n : Nat} (hn : 0 < n) (hs : n ≤ steps) : ∃ s, steps = s + 1 :=
  ⟨steps - 1, by omega⟩

theorem readable_number {n : Number} : Readable (.number n) := by
  intro gap text rest steps depth hg h hs _ hr
  obtain ⟨steps, rfl⟩ := exists_succ (spells_length h) hs
  rw [List.append_assoc, scan, skipSpace_spells hg h]
  cases h with
  | @integer i hf =>
    have hn : ∀ b, scanNumber b (Nat.toDigits 10 i.natAbs ++ rest) =
        .ok (wholeNumber b i.natAbs, rest) := fun b =>
      scanNumber_toDigits (natAbs_lt_of_fits hf) hr
    have hw := wholeNumber_of_fits hf
    rw [toList_text_integer]
    by_cases hi : i < 0
    · simp only [hi, if_true, decide_true] at hw ⊢
      simp [hn, hw, Except.map, ordered]
    · simp only [hi, if_false, decide_false] at hw ⊢
      cases he : Nat.toDigits 10 i.natAbs with
      | nil => exact absurd he Nat.toDigits_ne_nil
      | cons d ds =>
        have hd : isDigit d = true := isDigit_of_mem_toDigits (n := i.natAbs) (by simp [he])
        have hn := hn false
        rw [he, hw] at hn
        rw [List.cons_append]
        split <;> simp_all [Except.map, ordered, isDigit]

theorem scanItems_spells (hv : ∀ v ∈ vs, Readable v) (h : SpellsItems ']' Spells first vs tail)
    (hf : acc.isEmpty = first) (hs : tail.length ≤ steps) (hd : ∀ v ∈ vs, v.depth ≤ depth) :
    scanItems steps depth acc (tail ++ rest) =
      .ok (.array (acc.reverse ++ orderedItems vs), rest) := by
  induction h generalizing acc steps with
  | nil hg =>
    obtain ⟨steps, rfl⟩ := exists_succ (by simp) hs
    rw [List.append_assoc, List.singleton_append, scanItems, nextItem_closing hg]
    simp [drop_closing hg, isSpace, orderedItems]
  | @cons first v vs before gap text tail hb hg hv' has ih =>
    obtain ⟨steps, rfl⟩ := exists_succ (items_length (.cons hb hg hv' has)) hs
    have hlv := spells_length hv'
    have hlt := items_length has
    simp only [List.length_append] at hs
    have hnext := nextItem_separator (tail ++ rest) hb hg hv'
    have hread : scan steps depth ([] ++ text ++ (tail ++ rest)) = .ok (v.ordered, tail ++ rest) :=
      hv v List.mem_cons_self blank_nil hv' (by omega) (hd v List.mem_cons_self)
        (ends_items (.inl rfl) has)
    have htail : scanItems steps depth (v.ordered :: acc) (tail ++ rest) =
        .ok (.array ((v.ordered :: acc).reverse ++ orderedItems vs), rest) :=
      ih (fun w hw => hv w (List.mem_cons_of_mem _ hw)) rfl (by omega)
        fun w hw => hd w (List.mem_cons_of_mem _ hw)
    rw [List.append_assoc, scanItems, hf, hnext]
    rw [List.nil_append] at hread
    simp [hread, htail, orderedItems]

theorem scanMembers_spells (hv : ∀ m ∈ ms, Readable m.2)
    (h : SpellsItems '\x7d' (SpellsMember Spells) first ms tail) (hs : tail.length ≤ steps)
    (hd : ∀ m ∈ ms, m.2.depth ≤ depth) :
    scanMembers steps depth first members (tail ++ rest) =
      .ok (.object ((orderedMembers ms).foldl (fun acc e => Entries.insert e.1 e.2 acc) members),
        rest) := by
  induction h generalizing members steps with
  | nil hg =>
    obtain ⟨steps, rfl⟩ := exists_succ (by simp) hs
    rw [List.append_assoc, List.singleton_append, scanMembers, nextKey_closing hg]
    simp [drop_closing hg, isSpace, orderedMembers]
  | @cons first m ms before gap text tail hb hg hm has ih =>
    obtain ⟨steps, rfl⟩ := exists_succ (items_length (.cons hb hg hm has)) hs
    obtain ⟨k, v⟩ := m
    obtain ⟨gap', text', inside, after, hg', hv', hlt', hkey, hstring, hcolon⟩ :=
      member_tokens (tail ++ rest) hb hg hm
    have hlv := spells_length hv'
    have hlt := items_length has
    simp only [List.length_append] at hs
    have hread : scan steps depth (gap' ++ text' ++ (tail ++ rest)) =
        .ok (v.ordered, tail ++ rest) :=
      hv (k, v) List.mem_cons_self hg' hv' (by omega) (hd (k, v) List.mem_cons_self)
        (ends_items (.inr rfl) has)
    rw [List.append_assoc, scanMembers, hkey]
    simp only [hstring, hcolon, hread, String.ofList_toList, orderedMembers, List.foldl_cons]
    exact ih (fun w hw => hv w (List.mem_cons_of_mem _ hw)) (by omega)
      fun w hw => hd w (List.mem_cons_of_mem _ hw)

theorem readable (v : Value) : Readable v := by
  induction v using Value.induction with
  | null =>
    intro gap text rest steps depth hg h hs hd hr
    obtain ⟨steps, rfl⟩ := exists_succ (spells_length h) hs
    rw [List.append_assoc, scan, skipSpace_spells hg h]
    cases h
    rfl
  | bool b =>
    intro gap text rest steps depth hg h hs hd hr
    obtain ⟨steps, rfl⟩ := exists_succ (spells_length h) hs
    rw [List.append_assoc, scan, skipSpace_spells hg h]
    cases h
    cases b <;> rfl
  | number n => exact readable_number
  | string s =>
    intro gap text rest steps depth hg h hs hd hr
    obtain ⟨steps, rfl⟩ := exists_succ (spells_length h) hs
    rw [List.append_assoc, scan, skipSpace_spells hg h]
    cases h with
    | string h =>
      obtain ⟨inside, hin, rfl⟩ := h
      simp [scanString_chars hin, Except.map, ordered]
  | array vs ih =>
    intro gap text rest steps depth hg h hs hd hr
    obtain ⟨steps, rfl⟩ := exists_succ (spells_length h) hs
    rw [List.append_assoc, scan, skipSpace_spells hg h]
    cases h with
    | @array _ tail h =>
      obtain ⟨depth, rfl⟩ : ∃ d, depth = d + 1 := ⟨depth - 1, by rw [Value.depth] at hd; omega⟩
      have hd' : ∀ v ∈ vs, v.depth ≤ depth := fun v hv => by
        have := depth_lt_array hv
        omega
      rw [ordered]
      exact scanItems_spells ih h rfl (Nat.le_of_succ_le_succ hs) hd'
  | object ms ih =>
    intro gap text rest steps depth hg h hs hd hr
    obtain ⟨steps, rfl⟩ := exists_succ (spells_length h) hs
    rw [List.append_assoc, scan, skipSpace_spells hg h]
    cases h with
    | @object _ tail h =>
      obtain ⟨depth, rfl⟩ : ∃ d, depth = d + 1 := ⟨depth - 1, by rw [Value.depth] at hd; omega⟩
      have hd' : ∀ m ∈ ms, m.2.depth ≤ depth := fun m hm => by
        have := depth_lt_object hm
        omega
      rw [ordered]
      exact scanMembers_spells ih h (Nat.le_of_succ_le_succ hs) hd'

end Value

end HandlerHost.Json
