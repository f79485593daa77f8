import HandlerHost.Proofs.Json.NumeralExtent
import HandlerHost.Proofs.Json.Reading

/-!
How far the tokens of a text go, and how values end: with a quote, a digit, the last letter of a
word or a closing bracket, and a closing bracket of a list stands behind an item or the opening
one.
-/
namespace HandlerHost.Json

open Text (isDigit)

variable {c : Char} {cs ws acc used more rest gap s : List Char} {first : Bool}

/-- Every literal that is read is one of those that spell its text. -/
theorem spellsChars_of_scanString (h : scanString acc cs = .ok (s, rest)) :
    ∃ chars inside, SpellsChars chars inside ∧ cs = inside ++ '"' :: rest ∧
      s = acc.reverse ++ chars := by
  have step : ∀ {acc : List Char} {c : Char} {w r : List Char}, SpellsChar c w →
      (∃ chars inside, SpellsChars chars inside ∧ r = inside ++ '"' :: rest ∧
        s = (c :: acc).reverse ++ chars) →
      ∃ chars inside, SpellsChars chars inside ∧ w ++ r = inside ++ '"' :: rest ∧
        s = acc.reverse ++ chars := by
    rintro acc c w r hw ⟨chars, inside, hc, rfl, rfl⟩
    exact ⟨c :: chars, w ++ inside, .cons hw hc, by simp, by simp⟩
  fun_induction scanString acc cs with
  | case2 acc r =>
    cases h
    exact ⟨[], [], .nil, rfl, by simp⟩
  | case8 acc a b c d n hn _ hh e f g h' r m hm hl ih =>
    exact step (.pair hn hh hm hl) (ih h)
  | case13 acc a b c d r n hn hl hh ih =>
    exact step (.unit hn (Bool.eq_false_iff.mpr hh) (Bool.eq_false_iff.mpr hl)) (ih h)
  | case16 acc e r _ _ x hx ih => exact step (.letter hx) (ih h)
  | case19 acc c r hq _ _ hn hb hc ih =>
    have hne : c ≠ '\\' := by
      rintro rfl
      cases r with
      | nil => exact hn rfl rfl
      | cons d r => exact hb d r rfl rfl
    exact step (.plain (Nat.not_lt.mp hc) hq hne) (ih h)
  | _ => cases h

theorem skipSpace_split (cs : List Char) : ∃ gap, Blank gap ∧ cs = gap ++ skipSpace cs :=
  ⟨cs.takeWhile isSpace, fun _ hc => List.mem_takeWhile_imp hc,
    List.takeWhile_append_dropWhile.symm⟩

theorem not_isSpace_of_skipSpace (h : skipSpace cs = c :: rest) : isSpace c = false := by
  have hh := List.head?_dropWhile_not isSpace cs
  rw [← skipSpace, h] at hh
  exact hh

theorem scanWord_eq (h : scanWord ws cs = .ok rest) : cs = ws ++ rest := by
  induction ws generalizing cs with
  | nil =>
    cases h
    rfl
  | cons w ws ih =>
    cases cs with
    | nil => cases h
    | cons c cs =>
      simp only [scanWord, beq_iff_eq] at h
      split at h
      · rename_i hw
        rw [hw, ih h, List.cons_append]
      · cases h

theorem scanWord_append (ws rest : List Char) : scanWord ws (ws ++ rest) = .ok rest := by
  induction ws with
  | nil => rfl
  | cons w ws ih => simpa [scanWord] using ih

/-- The last character that is no blank. -/
def lastSolid? (cs : List Char) : Option Char := (cs.filter fun c => !isSpace c).getLast?

theorem lastSolid?_append : lastSolid? (used ++ more) = (lastSolid? more).or (lastSolid? used) := by
  simp [lastSolid?, List.getLast?_append]

theorem lastSolid?_blank (h : Blank gap) : lastSolid? gap = none := by
  simpa [lastSolid?, Blank] using h

theorem lastSolid?_singleton (h : isSpace c = false) : lastSolid? [c] = some c := by
  simp [lastSolid?, h]

/-- Characters that values end with. -/
def isFinal (c : Char) : Bool :=
  c == '"' || c == ']' || c == '\x7d' || c == 'e' || c == 'l' || isDigit c

/-- The end of a value: its last character, and before the closing bracket of a list an item or
the opening one. -/
def EndsValue (used : List Char) : Prop :=
  ∃ front c, used = front ++ [c] ∧ isFinal c = true ∧
    (c = ']' → ∃ d, lastSolid? front = some d ∧ (d = '[' ∨ isFinal d = true))

theorem not_isSpace_of_isFinal (h : isFinal c = true) : isSpace c = false := by
  simp only [isFinal, Bool.or_eq_true, beq_iff_eq, or_assoc] at h
  rcases h with rfl | rfl | rfl | rfl | rfl | h
  any_goals rfl
  have hs : c ≠ ' ' ∧ c ≠ '\t' ∧ c ≠ '\n' ∧ c ≠ '\r' :=
    ⟨ne_of_isDigit h rfl, ne_of_isDigit h rfl, ne_of_isDigit h rfl, ne_of_isDigit h rfl⟩
  simp [isSpace, hs]

theorem lastSolid?_endsValue (h : EndsValue used) :
    ∃ c, lastSolid? used = some c ∧ isFinal c = true := by
  obtain ⟨front, c, rfl, hc, -⟩ := h
  refine ⟨c, ?_, hc⟩
  rw [lastSolid?_append, lastSolid?_singleton (not_isSpace_of_isFinal hc)]
  rfl

theorem endsValue_of_ne (hc : isFinal c = true) (hb : c ≠ ']') (front : List Char) :
    EndsValue (front ++ [c]) :=
  ⟨front, c, rfl, hc, fun h => absurd h hb⟩

theorem endsValue_ne_nil (h : EndsValue used) : used ≠ [] := by
  obtain ⟨front, c, rfl, -⟩ := h
  simp

/-- Blanks before a value change nothing about its end. -/
theorem endsValue_append (h : EndsValue used) (front : List Char) : EndsValue (front ++ used) := by
  obtain ⟨body, c, rfl, hc, hb⟩ := h
  refine ⟨front ++ body, c, by simp, hc, fun he => ?_⟩
  obtain ⟨d, hd, hf⟩ := hb he
  exact ⟨d, by simp [lastSolid?_append, hd], hf⟩

theorem endsValue_of_endsInDigit (h : EndsInDigit used) (hn : used ≠ []) : EndsValue used := by
  have hd := h _ (List.getLast?_eq_some_getLast hn)
  rw [← List.dropLast_concat_getLast hn]
  exact endsValue_of_ne (by simp [isFinal, hd]) (ne_of_isDigit hd rfl) _

theorem nextItem_eq_none (h : nextItem first cs = .ok none) :
    ∃ gap rest, Blank gap ∧ cs = gap ++ ']' :: rest := by
  obtain ⟨gap, hg, hcs⟩ := skipSpace_split cs
  unfold nextItem at h
  split at h
  · cases h
  · rename_i r he
    exact ⟨gap, r, hg, he ▸ hcs⟩
  · split at h
    · cases h
    · split at h <;> cases h
  · split at h <;> cases h

theorem nextItem_first (hg : Blank gap) (hs : isSpace c = false) (hb : c ≠ ']') :
    nextItem true (gap ++ c :: rest) = .ok (some (c :: rest)) := by
  rw [nextItem, skipSpace_blank hg, skipSpace_cons hs]
  split <;> simp_all

theorem nextItem_later {gap' : List Char} (hg : Blank gap) (hg' : Blank gap')
    (hs : isSpace c = false) (hb : c ≠ ']') :
    nextItem false (gap ++ ',' :: (gap' ++ c :: rest)) = .ok (some (c :: rest)) := by
  have hcomma : isSpace ',' = false := rfl
  simp only [nextItem, skipSpace_blank hg, skipSpace_cons hcomma, skipSpace_blank hg',
    skipSpace_cons hs, Bool.false_eq_true, if_false]
  split <;> simp_all

/-- Where an item begins, and that it does whatever follows its first character. -/
theorem nextItem_eq_some {next : List Char} (h : nextItem first cs = .ok (some next)) :
    ∃ before c r, next = c :: r ∧ cs = before ++ c :: r ∧
      (first = false → ∀ rest, Ends (before ++ rest)) ∧
      ∀ rest, nextItem first (before ++ c :: rest) = .ok (some (c :: rest)) := by
  obtain ⟨gap, hg, hcs⟩ := skipSpace_split cs
  unfold nextItem at h
  split at h
  · cases h
  · cases h
  · rename_i r he
    cases first with
    | true =>
      cases h
      exact ⟨gap, ',', r, rfl, he ▸ hcs, by simp, fun rest => nextItem_first hg rfl (by decide)⟩
    | false =>
      obtain ⟨gap', hg', hr⟩ := skipSpace_split r
      simp only [Bool.false_eq_true, if_false] at h
      split at h
      · cases h
      · cases h
      · rename_i next' hnil hclose
        cases h
        cases hnext : skipSpace r with
        | nil => exact absurd hnext hnil
        | cons c r' =>
          have hc := not_isSpace_of_skipSpace hnext
          have hne : c ≠ ']' := by
            rintro rfl
            exact hclose _ hnext
          rw [he, hr, hnext] at hcs
          refine ⟨gap ++ ',' :: gap', c, r', rfl, by simp [hcs], fun _ rest => ?_, fun rest => ?_⟩
          · rw [List.append_assoc]
            exact ends_blank hg (ends_cons (.inr (.inl rfl)))
          · rw [List.append_assoc, List.cons_append]
            exact nextItem_later hg hg' hc hne
  · rename_i hnil hclose _
    cases first with
    | false => cases h
    | true =>
      cases hnext : skipSpace cs with
      | nil => exact absurd hnext hnil
      | cons c r =>
        have hc := not_isSpace_of_skipSpace hnext
        rw [hnext] at h hcs
        cases h
        have hne : c ≠ ']' := by
          rintro rfl
          exact hclose _ hnext
        exact ⟨gap, c, r, rfl, hcs, by simp, fun rest => nextItem_first hg hc hne⟩

theorem nextKey_eq_none (h : nextKey first cs = .ok none) :
    ∃ gap rest, Blank gap ∧ cs = gap ++ '\x7d' :: rest := by
  obtain ⟨gap, hg, hcs⟩ := skipSpace_split cs
  unfold nextKey at h
  split at h
  · cases h
  · rename_i r he
    exact ⟨gap, r, hg, he ▸ hcs⟩
  · split at h
    · cases h
    · split at h <;> cases h
  · split at h <;> cases h
  · cases h

/-- Where a key begins: after its quote. -/
theorem nextKey_eq_some (h : nextKey first cs = .ok (some rest)) :
    ∃ before gap, Separator first before ∧ Blank gap ∧ cs = before ++ gap ++ '"' :: rest := by
  obtain ⟨gap, hg, hcs⟩ := skipSpace_split cs
  unfold nextKey at h
  split at h
  · cases h
  · cases h
  · rename_i r he
    obtain ⟨gap', hg', hr⟩ := skipSpace_split r
    cases first with
    | true => cases h
    | false =>
      simp only [Bool.false_eq_true, if_false] at h
      split at h
      · cases h
      · rename_i r' hr'
        cases h
        rw [he, hr, hr'] at hcs
        exact ⟨gap ++ [','], gap', separator_false hg, hg', by simp [hcs]⟩
      · cases h
      · cases h
  · rename_i r he
    cases first with
    | false => cases h
    | true =>
      cases h
      exact ⟨[], gap, separator_true, hg, he ▸ hcs⟩
  · cases h

theorem scanColon_eq_ok (h : scanColon cs = .ok rest) :
    ∃ gap, Blank gap ∧ cs = gap ++ ':' :: rest := by
  obtain ⟨gap, hg, hcs⟩ := skipSpace_split cs
  unfold scanColon at h
  split at h
  · rename_i r he
    cases h
    exact ⟨gap, hg, he ▸ hcs⟩
  · cases h
  · cases h

end HandlerHost.Json
