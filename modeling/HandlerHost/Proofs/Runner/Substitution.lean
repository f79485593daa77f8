import HandlerHost.Proofs.Runner.Rendering

/-!
Rendering as substitution. A template is, in one way only, texts without a mark around holes. It is
rendered by writing the values of all holes at once into these texts.
-/
namespace HandlerHost.Runner

variable {handler source : String} {h : Hole} {ps : List Piece} {cs text rest : List Char}
  {skip : Nat}

namespace Hole

/-- A mark is opened once, where it begins. -/
theorem opening_notMem_tail : '\x7b' ∉ h.mark.tail := by
  cases h <;> decide

theorem at?_eq_none : at? cs = none ↔ ∀ h : Hole, ¬ h.mark <+: cs := by
  have hall : ∀ h : Hole, h ∈ all := by
    intro h
    cases h <;> decide
  simp only [at?, List.find?_eq_none, List.isPrefixOf_iff_prefix]
  exact ⟨fun hn h => hn h (hall h), fun hn h _ => hn h⟩

/-- No mark begins like another. -/
theorem at?_mark : at? (h.mark ++ rest) = some h := by
  cases h <;> rfl

end Hole

namespace Template

/-- No place is marked in a text. -/
def Unmarked (cs : List Char) : Prop := ∀ h : Hole, ¬ h.mark <:+: cs

theorem unmarked_nil : Unmarked [] :=
  fun _ hi => absurd (List.infix_nil.mp hi) (List.cons_ne_nil _ _)

theorem Unmarked.of_cons {c : Char} (hu : Unmarked (c :: cs)) : Unmarked cs :=
  fun h hi => hu h (hi.trans (List.suffix_cons c cs).isInfix)

/-- A text with what comes before its first hole, and its holes, each with what comes after it. -/
structure Cut where
  before : List Char
  parts : List (Hole × List Char)

namespace Cut

/-- The text of a cut with its holes written in some way. -/
def spell (f : Hole → List Char) (c : Cut) : List Char :=
  c.before ++ c.parts.flatMap fun part => f part.1 ++ part.2

/-- What stands around the holes marks no place. -/
structure Clean (c : Cut) : Prop where
  before : Unmarked c.before
  parts : ∀ part ∈ c.parts, Unmarked part.2

def pieces (c : Cut) : List Piece :=
  c.before.map .char ++ c.parts.flatMap fun part => .hole part.1 :: part.2.map .char

/-- Gathers the characters between holes. -/
def ofPieces : List Piece → Cut
  | [] => ⟨[], []⟩
  | .char c :: ps => ⟨c :: (ofPieces ps).before, (ofPieces ps).parts⟩
  | .hole h :: ps => ⟨[], (h, (ofPieces ps).before) :: (ofPieces ps).parts⟩

theorem ofPieces_chars :
    ofPieces (text.map .char ++ ps) = ⟨text ++ (ofPieces ps).before, (ofPieces ps).parts⟩ := by
  induction text with
  | nil => rfl
  | cons c text ih => simp [ofPieces, ih]

theorem ofPieces_parts (parts : List (Hole × List Char)) :
    ofPieces (parts.flatMap fun part => .hole part.1 :: part.2.map .char) = ⟨[], parts⟩ := by
  induction parts with
  | nil => rfl
  | cons part parts ih => simp [ofPieces, ofPieces_chars, ih]

theorem ofPieces_pieces (c : Cut) : ofPieces c.pieces = c := by
  rw [pieces, ofPieces_chars, ofPieces_parts, List.append_nil]

theorem spell_ofPieces {f : Hole → List Char} {g : Piece → List Char}
    (hchar : ∀ c, g (.char c) = [c]) (hhole : ∀ h, g (.hole h) = f h) :
    (ofPieces ps).spell f = ps.flatMap g := by
  induction ps with
  | nil => rfl
  | cons p ps ih =>
    rw [List.flatMap_cons, ← ih]
    cases p with
    | char c => simp [ofPieces, spell, hchar]
    | hole h => simp [ofPieces, spell, hhole]

end Cut

theorem pieces_skip (skip : ℕ) (cs : List Char) : pieces skip cs = pieces 0 (cs.drop skip) := by
  induction cs generalizing skip with
  | nil => cases skip <;> rfl
  | cons c cs ih =>
    cases skip with
    | zero => rfl
    | succ skip => exact ih skip

theorem pieces_mark : pieces 0 (h.mark ++ rest) = .hole h :: pieces 0 rest := by
  have hm : h.mark = '\x7b' :: h.mark.tail := rfl
  have ha : Hole.at? ('\x7b' :: (h.mark.tail ++ rest)) = some h := Hole.at?_mark
  rw [hm, List.cons_append, pieces, ha]
  simp only [pieces_skip (h.mark.length - 1)]
  simp [← List.length_tail]

/-- What follows a text before a hole or the end. -/
def Opens (cs : List Char) : Prop := cs = [] ∨ ∃ more, cs = '\x7b' :: more

/-- A mark cannot begin in a text without marks and end behind it: there another one begins. -/
theorem at?_eq_none_of_unmarked (ht : text ≠ []) (hu : Unmarked text) (hr : Opens rest) :
    Hole.at? (text ++ rest) = none := by
  refine Hole.at?_eq_none.mpr fun h ⟨after, hafter⟩ => ?_
  rcases List.append_eq_append_iff.mp hafter with ⟨more, hm, -⟩ | ⟨behind, hm, hrest⟩
  · exact hu h ⟨[], more, by simp [hm]⟩
  cases behind with
  | nil => exact hu h ⟨[], [], by simpa using hm⟩
  | cons c behind =>
    obtain rfl : c = '\x7b' := by
      rcases hr with rfl | ⟨more, rfl⟩
      · cases hrest
      · exact (List.cons.inj hrest).1.symm
    obtain ⟨first, text, rfl⟩ := List.exists_cons_of_ne_nil ht
    apply Hole.opening_notMem_tail (h := h)
    simp [hm]

theorem pieces_unmarked (hu : Unmarked text) (hr : Opens rest) :
    pieces 0 (text ++ rest) = text.map .char ++ pieces 0 rest := by
  induction text with
  | nil => rfl
  | cons c text ih =>
    have hnone : Hole.at? (c :: (text ++ rest)) = none :=
      at?_eq_none_of_unmarked (List.cons_ne_nil c text) hu hr
    rw [List.cons_append, pieces, hnone]
    simp [ih hu.of_cons]

theorem opens_parts {parts : List (Hole × List Char)} :
    Opens (parts.flatMap fun part => part.1.mark ++ part.2) := by
  cases parts with
  | nil => exact .inl rfl
  | cons part parts => exact .inr ⟨_, rfl⟩

/-- A clean cut of a template is read off it. -/
theorem pieces_spell {c : Cut} (hc : c.Clean) : pieces 0 (c.spell Hole.mark) = c.pieces := by
  obtain ⟨before, parts⟩ := c
  obtain ⟨hbefore, hparts⟩ := hc
  simp only [Cut.spell, Cut.pieces, pieces_unmarked hbefore opens_parts]
  congr 1
  induction parts with
  | nil => rfl
  | cons part parts ih =>
    obtain ⟨hpart, hrest⟩ := List.forall_mem_cons.mp hparts
    simp only [List.flatMap_cons, List.append_assoc, pieces_mark,
      pieces_unmarked hpart opens_parts, ih hbefore hrest, List.cons_append]

theorem spell_ofPieces_pieces :
    (Cut.ofPieces (pieces skip cs)).spell Hole.mark = cs.drop skip := by
  rw [← flatMap_pieces]
  exact Cut.spell_ofPieces (fun _ => rfl) fun _ => rfl

/-- The texts between the holes that are read off a template mark nothing. -/
theorem clean_ofPieces : (Cut.ofPieces (pieces skip cs)).Clean := by
  induction cs generalizing skip with
  | nil => exact ⟨unmarked_nil, by simp [pieces, Cut.ofPieces]⟩
  | cons c cs ih =>
    cases skip with
    | succ skip => exact ih
    | zero =>
      rw [pieces]
      split
      · obtain ⟨hbefore, hparts⟩ := @ih _
        exact ⟨unmarked_nil, List.forall_mem_cons.mpr ⟨hbefore, hparts⟩⟩
      · rename_i hnone
        obtain ⟨hbefore, hparts⟩ := @ih 0
        refine ⟨fun h hi => ?_, hparts⟩
        rcases List.infix_cons_iff.mp hi with hp | hi
        · -- What is read as text begins what is left of the template, so it begins no mark either.
          have hprefix : (Cut.ofPieces (pieces 0 cs)).before <+: cs := ⟨_, spell_ofPieces_pieces⟩
          exact Hole.at?_eq_none.mp hnone h (hp.trans (List.cons_prefix_cons.mpr ⟨rfl, hprefix⟩))
        · exact hbefore h hi

theorem render_eq_spell {template : String} : (render template handler source).toList =
    (Cut.ofPieces (pieces 0 template.toList)).spell
      fun h => (Json.literal (h.value handler source)).toList := by
  rw [render, String.toList_ofList]
  exact (Cut.spell_ofPieces (fun _ => rfl) fun _ => rfl).symm

/-- A template is texts without marks around marked holes, in one way only, and it is rendered by
writing the string literals of all values in place of the marks. The texts are kept as they are,
and what is written is not looked at: it may have marks in it. -/
theorem render_substitutes (template : String) :
    (∃! c : Cut, c.Clean ∧ c.spell Hole.mark = template.toList) ∧
      ∀ c : Cut, c.Clean → c.spell Hole.mark = template.toList → ∀ handler source,
        (render template handler source).toList =
          c.spell (fun h => (Json.literal (h.value handler source)).toList) ∧
        ∀ h : Hole, Json.Value.read (Json.literal (h.value handler source)) =
          .ok (.string (h.value handler source)) := by
  have hunique : ∀ c : Cut, c.Clean → c.spell Hole.mark = template.toList →
      c = Cut.ofPieces (pieces 0 template.toList) := by
    intro c hc hs
    rw [← hs, pieces_spell hc, Cut.ofPieces_pieces]
  refine ⟨⟨_, ⟨clean_ofPieces, spell_ofPieces_pieces⟩, fun c hc => hunique c hc.1 hc.2⟩, ?_⟩
  intro c hc hs handler source
  obtain rfl := hunique c hc hs
  exact ⟨render_eq_spell, fun h => Json.read_literal _⟩

/-- Braces around a mark stay, and so does a mark in the handler's name. -/
theorem render_substitutes_braces :
    let template := "\x7b\x7bhandler_name\x7d\x7d \x7bnope\x7d \x7b\x7bsource_file\x7d\x7bevent_file"
    let c : Cut := ⟨['\x7b'], [(.handlerName, "\x7d \x7bnope\x7d \x7b".toList),
      (.sourceFile, "\x7bevent_file".toList)]⟩
    c.Clean ∧ c.spell Hole.mark = template.toList ∧
      render template "\x7bsource_file\x7d" "handler.py" =
        "\x7b\"\x7bsource_file\x7d\"\x7d \x7bnope\x7d \x7b\"handler.py\"\x7bevent_file" := by
  intro template c
  have hclean : c.Clean := by
    refine ⟨fun h => ?_, List.forall_mem_cons.mpr ⟨fun h => ?_,
      List.forall_mem_cons.mpr ⟨fun h => ?_, by simp⟩⟩⟩
    all_goals cases h <;> decide +kernel
  have hspell : c.spell Hole.mark = template.toList := by decide +kernel
  refine ⟨hclean, hspell, String.toList_inj.mp ?_⟩
  obtain ⟨hrender, -⟩ := (render_substitutes template).2 c hclean hspell "\x7bsource_file\x7d"
    "handler.py"
  rw [hrender]
  decide +kernel

end Template

end HandlerHost.Runner
