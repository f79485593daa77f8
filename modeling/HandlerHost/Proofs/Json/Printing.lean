import HandlerHost.Proofs.Json.Canonical
import HandlerHost.Proofs.Json.Spelling

/-!
What is written spells the value, on one line as well as indented. The two forms differ in the
blanks they put around items and after colons only.
-/
namespace HandlerHost.Json

variable {α : Type} {P : List Char → Prop} {f g : String → String} {v : Value} {k : String}
  {a : α} {as : List α} {depth : Nat}

/-- A writer adds a text of some kind to what it is given. -/
def Adds (f : String → String) (P : List Char → Prop) : Prop :=
  ∀ acc, ∃ text, (f acc).toList = acc.toList ++ text ∧ P text

theorem adds_self : Adds (fun acc => acc) Blank := by
  intro acc
  exact ⟨[], by simp, blank_nil⟩

theorem adds_break : Adds (Value.breakOnto · depth) Blank := by
  intro acc
  refine ⟨'\n' :: List.replicate (2 * depth) ' ', by simp [Value.breakOnto, toList_pushAll], ?_⟩
  intro c hc
  rcases List.mem_cons.mp hc with rfl | hc
  · rfl
  · rw [List.eq_of_mem_replicate hc]
    rfl

theorem adds_append {s : String} (h : P s.toList) : Adds (· ++ s) P := by
  intro acc
  exact ⟨s.toList, by simp, h⟩

section Items

variable {list : String → List α → String} {item : String → α → String}
  {spells : α → List Char → Prop} {closing : Char}

/-- Items after the first are written each with a comma before it. -/
theorem adds_items (hf : Adds f Blank) (hg : Adds g Blank) (hnil : ∀ acc, list acc [] = acc)
    (hcons : ∀ acc a as, list acc (a :: as) = list (item (f (acc.push ',')) a) as)
    (h : ∀ a ∈ as, Adds (item · a) (spells a)) :
    Adds (fun acc => (g (list acc as)).push closing) (SpellsItems closing spells false as) := by
  induction as with
  | nil =>
    intro acc
    obtain ⟨gap, ht, hb⟩ := hg acc
    exact ⟨gap ++ [closing], by simp [hnil, ht], .nil hb⟩
  | cons a as ih =>
    intro acc
    obtain ⟨gap, hgap, hb⟩ := hf (acc.push ',')
    obtain ⟨text, htext, ha⟩ := h a List.mem_cons_self (f (acc.push ','))
    obtain ⟨tail, htail, has⟩ :=
      ih (fun a ha => h a (List.mem_cons_of_mem _ ha)) (item (f (acc.push ',')) a)
    refine ⟨([] ++ [',']) ++ gap ++ text ++ tail, ?_, .cons (separator_false blank_nil) hb ha has⟩
    dsimp only at htext htail ⊢
    rw [hcons, htail, htext, hgap]
    simp

/-- The first item is written without a comma. -/
theorem adds_firstItem (hf : Adds f Blank) (hg : Adds g Blank) (hnil : ∀ acc, list acc [] = acc)
    (hcons : ∀ acc a as, list acc (a :: as) = list (item (f (acc.push ',')) a) as)
    (h : ∀ b ∈ a :: as, Adds (item · b) (spells b)) :
    Adds (fun acc => (g (list (item (f acc) a) as)).push closing)
      (SpellsItems closing spells true (a :: as)) := by
  intro acc
  obtain ⟨gap, hgap, hb⟩ := hf acc
  obtain ⟨text, htext, ha⟩ := h a List.mem_cons_self (f acc)
  have has : Adds (fun acc => (g (list acc as)).push closing)
      (SpellsItems closing spells false as) :=
    adds_items hf hg hnil hcons fun b hb => h b (List.mem_cons_of_mem _ hb)
  obtain ⟨tail, htail, has⟩ := has (item (f acc) a)
  refine ⟨[] ++ gap ++ text ++ tail, ?_, .cons separator_true hb ha has⟩
  dsimp only at htext htail ⊢
  rw [htail, htext, hgap]
  simp

end Items

/-- A colon and what stands between it and the value. -/
def Colon (text : List Char) : Prop := ∃ gap, Blank gap ∧ text = ':' :: gap

theorem adds_colon : Adds (·.push ':') Colon := by
  intro acc
  exact ⟨[':'], by simp, [], blank_nil, rfl⟩

theorem adds_colonBlank : Adds (· ++ ": ") Colon := by
  apply adds_append
  exact ⟨[' '], by simp [Blank, isSpace], rfl⟩

theorem adds_member (hg : Adds g Colon) (hf : Adds f (Spells v)) :
    Adds (fun acc => f (g (literalOnto acc k))) (SpellsMember Spells (k, v)) := by
  intro acc
  obtain ⟨key, hkey, hk⟩ := literalOnto_spells acc k
  obtain ⟨colon, hcolon, gap, hb, rfl⟩ := hg (literalOnto acc k)
  obtain ⟨text, htext, hv⟩ := hf (g (literalOnto acc k))
  refine ⟨key ++ [] ++ ':' :: gap ++ text, ?_, .mk hk blank_nil hb hv⟩
  rw [htext, hcolon, hkey]
  simp

theorem adds_opening {opening : Char} (h : Adds f P) :
    Adds (fun acc => f (acc.push opening))
      (fun text => ∃ tail, P tail ∧ text = opening :: tail) := by
  intro acc
  obtain ⟨tail, ht, hp⟩ := h (acc.push opening)
  exact ⟨opening :: tail, by simp [ht], tail, hp, rfl⟩

theorem adds_array {vs : List Value} (h : Adds f (SpellsItems ']' Spells true vs)) :
    Adds (fun acc => f (acc.push '[')) (Spells (.array vs)) := by
  intro acc
  obtain ⟨_, ht, tail, hs, rfl⟩ := adds_opening h acc
  exact ⟨_, ht, .array hs⟩

theorem adds_object {ms : List (String × Value)}
    (h : Adds f (SpellsItems '\x7d' (SpellsMember Spells) true ms)) :
    Adds (fun acc => f (acc.push '\x7b')) (Spells (.object ms)) := by
  intro acc
  obtain ⟨_, ht, tail, hs, rfl⟩ := adds_opening h acc
  exact ⟨_, ht, .object hs⟩

theorem adds_literal {s : String} : Adds (literalOnto · s) (Spells (.string s)) := by
  intro acc
  obtain ⟨text, ht, hs⟩ := literalOnto_spells acc s
  exact ⟨text, ht, .string hs⟩

theorem adds_number {n : Number} (h : Value.Integral (.number n)) :
    Adds (· ++ n.text) (Spells (.number n)) := by
  cases h with
  | number h =>
    obtain ⟨i, rfl, hf⟩ := h
    exact adds_append (.integer hf)

theorem spells_emptyArray : Spells (.array []) ['[', ']'] := .array (.nil blank_nil)

theorem spells_emptyObject : Spells (.object []) ['\x7b', '\x7d'] := .object (.nil blank_nil)

namespace Value

theorem adds_compactOnto (hi : Integral v) : Adds (compactOnto · v) (Spells v) := by
  induction v using Value.induction with
  | null => exact adds_append .null
  | bool b => exact adds_append .bool
  | number n => exact adds_number hi
  | string s => exact adds_literal
  | array vs ih =>
    have h : ∀ v ∈ vs, Adds (compactOnto · v) (Spells v) := fun v hv =>
      ih v hv (each_items hi v hv)
    cases vs with
    | nil => exact adds_append spells_emptyArray
    | cons v vs =>
      exact adds_array (adds_firstItem adds_self adds_self (fun _ => rfl) (fun _ _ _ => rfl) h)
  | object ms ih =>
    have h : ∀ m ∈ ms, Adds (fun acc => compactOnto ((literalOnto acc m.1).push ':') m.2)
        (SpellsMember Spells m) := fun m hm =>
      adds_member adds_colon (ih m hm (each_members hi m hm))
    cases ms with
    | nil => exact adds_append spells_emptyObject
    | cons m ms =>
      exact adds_object (adds_firstItem adds_self adds_self (fun _ => rfl) (fun _ _ _ => rfl) h)

theorem adds_prettyOnto (hi : Integral v) :
    Adds (prettyOnto depth · v) (Spells v) := by
  induction v using Value.induction generalizing depth with
  | null => exact adds_append .null
  | bool b => exact adds_append .bool
  | number n => exact adds_number hi
  | string s => exact adds_literal
  | array vs ih =>
    have h : ∀ v ∈ vs, Adds (prettyOnto (depth + 1) · v) (Spells v) := fun v hv =>
      ih v hv (each_items hi v hv)
    cases vs with
    | nil => exact adds_append spells_emptyArray
    | cons v vs =>
      exact adds_array (adds_firstItem adds_break adds_break (fun _ => rfl) (fun _ _ _ => rfl) h)
  | object ms ih =>
    have h : ∀ m ∈ ms, Adds (fun acc => prettyOnto (depth + 1) (literalOnto acc m.1 ++ ": ") m.2)
        (SpellsMember Spells m) := fun m hm =>
      adds_member adds_colonBlank (ih m hm (each_members hi m hm))
    cases ms with
    | nil => exact adds_append spells_emptyObject
    | cons m ms =>
      exact adds_object (adds_firstItem adds_break adds_break (fun _ => rfl) (fun _ _ _ => rfl) h)

/-- The text on one line is a text of the value. -/
theorem spells_compact (hi : Integral v) : Spells v v.compact.toList := by
  obtain ⟨text, ht, hs⟩ := adds_compactOnto hi ""
  have he : v.compact.toList = text := ht
  rwa [he]

/-- The indented text is a text of the value. -/
theorem spells_pretty (hi : Integral v) : Spells v v.pretty.toList := by
  have ha : Adds (prettyOnto 0 · v) (Spells v) := adds_prettyOnto hi
  obtain ⟨text, ht, hs⟩ := ha ""
  have he : v.pretty.toList = text := ht
  rwa [he]

end Value

end HandlerHost.Json
