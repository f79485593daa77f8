import HandlerHost.Proofs.Json.TokenExtent

/-!
How far a value goes. A reader takes the same of every text that begins so, as long as no numeral
goes on there, and it needs no more steps than it takes characters. Blanks after a value are
neither needed nor in the way.
-/
namespace HandlerHost.Json

open Text (isDigit)

variable {cs gap : List Char} {v : Value}

namespace Value

variable {steps depth : Nat} {acc : List Value} {members : List (String × Value)}

/-- What readers with this many steps take for a value. -/
def Extent (steps : Nat) : Prop :=
  ∀ {depth cs v rest}, scan steps depth cs = .ok (v, rest) →
    ∃ used, cs = used ++ rest ∧ EndsValue used ∧
      ∀ steps, used.length ≤ steps → Takes (scan steps depth) used v

/-- What readers with this many steps take for the items of a list. -/
def ItemsExtent (steps : Nat) : Prop :=
  ∀ {depth acc cs v rest}, scanItems steps depth acc cs = .ok (v, rest) →
    ∃ body, cs = body ++ ']' :: rest ∧ (∀ c, lastSolid? body = some c → isFinal c = true) ∧
      (acc ≠ [] → ∀ rest, Ends (body ++ ']' :: rest)) ∧
      ∀ steps rest, body.length < steps →
        scanItems steps depth acc (body ++ ']' :: rest) = .ok (v, rest)

/-- What readers with this many steps take for the members of an object. -/
def MembersExtent (steps : Nat) : Prop :=
  ∀ {depth first members cs v rest}, scanMembers steps depth first members cs = .ok (v, rest) →
    ∃ body, cs = body ++ '\x7d' :: rest ∧
      (first = false → ∀ rest, Ends (body ++ '\x7d' :: rest)) ∧
      ∀ steps rest, body.length < steps →
        scanMembers steps depth first members (body ++ '\x7d' :: rest) = .ok (v, rest)

/-- Blanks before a value are passed over. -/
theorem scan_blank (hg : Blank gap) : scan (steps + 1) depth (gap ++ cs) =
    scan (steps + 1) depth cs := by
  rw [scan, scan, skipSpace_blank hg]

theorem itemsExtent_succ (hv : Extent steps) (hi : ItemsExtent steps) :
    ItemsExtent (steps + 1) := by
  intro depth acc cs v rest h
  rw [scanItems] at h
  split at h
  · cases h
  · rename_i hnext
    obtain ⟨gap, tail, hg, rfl⟩ := nextItem_eq_none hnext
    rw [drop_closing hg rfl] at h
    cases h
    refine ⟨gap, rfl, by simp [lastSolid?_blank hg], ?_, ?_⟩
    · exact fun _ rest => ends_blank hg (ends_cons (.inr (.inr (.inl rfl))))
    · intro steps rest hs
      obtain ⟨steps, rfl⟩ := exists_succ (by omega) hs
      rw [scanItems, nextItem_closing hg]
      simp only [drop_closing hg (show isSpace ']' = false from rfl)]
  · rename_i next hnext
    split at h
    · cases h
    · rename_i item r hitem
      obtain ⟨before, c, r', rfl, rfl, hends, hagain⟩ := nextItem_eq_some hnext
      obtain ⟨used, hused, hend, htakes⟩ := hv hitem
      obtain ⟨body, rfl, hlast, hbody, hitems⟩ := hi h
      obtain ⟨u, rfl⟩ : ∃ u, used = c :: u := by
        cases used with
        | nil => exact absurd rfl (endsValue_ne_nil hend)
        | cons d u =>
          cases hused
          exact ⟨u, rfl⟩
      refine ⟨before ++ c :: u ++ body, by simp [hused], ?_, ?_, ?_⟩
      · intro d hd
        rw [lastSolid?_append] at hd
        cases hb : lastSolid? body with
        | some e =>
          obtain rfl : e = d := by simpa [hb] using hd
          exact hlast e hb
        | none =>
          obtain ⟨e, he, hf⟩ := lastSolid?_endsValue (endsValue_append hend before)
          obtain rfl : e = d := by simpa [hb, he] using hd
          exact hf
      · intro hacc rest
        simp only [List.append_assoc]
        exact hends (by simpa using hacc) _
      · intro steps rest hs
        obtain ⟨steps, rfl⟩ := exists_succ (by omega) hs
        simp only [List.length_append, List.length_cons] at hs
        have hscan : scan steps depth (c :: (u ++ (body ++ ']' :: rest))) =
            .ok (item, body ++ ']' :: rest) :=
          htakes steps (by simp only [List.length_cons]; omega) _ (hbody (by simp) rest)
        simp only [List.append_assoc, List.cons_append, scanItems, hagain, hscan]
        exact hitems steps rest (by omega)

theorem membersExtent_succ (hv : Extent steps) (hm : MembersExtent steps) :
    MembersExtent (steps + 1) := by
  intro depth first members cs v rest h
  rw [scanMembers] at h
  split at h
  · cases h
  · rename_i hnext
    obtain ⟨gap, tail, hg, rfl⟩ := nextKey_eq_none hnext
    rw [drop_closing hg rfl] at h
    cases h
    refine ⟨gap, rfl, ?_, ?_⟩
    · exact fun _ rest => ends_blank hg (ends_cons (.inr (.inr (.inr rfl))))
    · intro steps rest hs
      obtain ⟨steps, rfl⟩ := exists_succ (by omega) hs
      rw [scanMembers, nextKey_closing hg]
      simp only [drop_closing hg (show isSpace '\x7d' = false from rfl)]
  · rename_i next hnext
    split at h
    · cases h
    · rename_i k r hkey
      split at h
      · cases h
      · rename_i r' hcolon
        split at h
        · cases h
        · rename_i value r'' hvalue
          obtain ⟨before, gap, hb, hg, rfl⟩ := nextKey_eq_some hnext
          obtain ⟨chars, inside, hin, rfl, rfl⟩ := spellsChars_of_scanString hkey
          obtain ⟨gap', hg', rfl⟩ := scanColon_eq_ok hcolon
          obtain ⟨used, rfl, hend, htakes⟩ := hv hvalue
          obtain ⟨body, rfl, hbody, hmembers⟩ := hm h
          refine ⟨before ++ gap ++ '"' :: (inside ++ '"' :: (gap' ++ ':' :: (used ++ body))),
            by simp, ?_, ?_⟩
          · rintro rfl rest
            obtain ⟨before, hbefore, rfl⟩ := hb
            simp only [List.append_assoc, List.cons_append]
            exact ends_blank hbefore (ends_cons (.inr (.inl rfl)))
          · intro steps rest hs
            obtain ⟨steps, rfl⟩ := exists_succ (by omega) hs
            simp only [List.length_append, List.length_cons] at hs
            have hscan : scan steps depth (used ++ (body ++ '\x7d' :: rest)) =
                .ok (value, body ++ '\x7d' :: rest) :=
              htakes steps (by omega) _ (hbody rfl rest)
            have hk : nextKey first (before ++ gap ++ '"' :: (inside ++ '"' :: (gap' ++ ':' ::
                (used ++ (body ++ '\x7d' :: rest))))) =
                .ok (some (inside ++ '"' :: (gap' ++ ':' :: (used ++ (body ++ '\x7d' :: rest))))) :=
              nextKey_separator hb hg
            simp only [List.append_assoc, List.cons_append] at hk ⊢
            simp only [scanMembers, hk, scanString_chars hin, scanColon_blank hg', hscan]
            exact hmembers steps rest (by omega)

/-- What a reader takes from the first character of a value on. -/
def ExtentFrom (steps depth : Nat) (cs : List Char) : Prop :=
  ∀ v rest, scan (steps + 1) depth cs = .ok (v, rest) →
    ∃ used, cs = used ++ rest ∧ EndsValue used ∧
      ∀ steps, used.length ≤ steps → Takes (scan steps depth) used v

/-- Words and literals: what is read after the first character does not hang on the steps. -/
theorem extentFrom_token {α : Type} {c : Char} {r : List Char} (read : Scan α) (f : α → Value)
    (hscan : ∀ steps r, scan (steps + 1) depth (c :: r) = (read r).map fun p => (f p.1, p.2))
    (hread : ∀ a rest, read r = .ok (a, rest) →
      ∃ used, r = used ++ rest ∧ EndsValue (c :: used) ∧ Takes read used a) :
    ExtentFrom steps depth (c :: r) := by
  intro v rest h
  rw [hscan] at h
  cases hr : read r with
  | error e =>
    rw [hr] at h
    cases h
  | ok p =>
    obtain ⟨a, rest'⟩ := p
    rw [hr] at h
    cases h
    obtain ⟨used, rfl, hend, htakes⟩ := hread a _ hr
    refine ⟨c :: used, rfl, hend, fun steps hs rest hr => ?_⟩
    obtain ⟨steps, rfl⟩ := exists_succ (by simp) hs
    rw [List.cons_append, hscan, htakes rest hr]
    rfl

theorem extentFrom_word {c : Char} {r word : List Char} {v : Value}
    (hscan : ∀ steps r, scan (steps + 1) depth (c :: r) = (scanWord word r).map fun r => (v, r))
    (hend : EndsValue (c :: word)) : ExtentFrom steps depth (c :: r) := by
  refine extentFrom_token (fun r => (scanWord word r).map fun r => ((), r)) (fun _ => v)
    (fun steps r => ?_) fun a rest h => ?_
  · rw [hscan]
    cases scanWord word r <;> rfl
  · cases hw : scanWord word r with
    | error e =>
      simp only [hw] at h
      cases h
    | ok r' =>
      simp only [hw] at h
      cases h
      refine ⟨word, scanWord_eq hw, hend, fun rest _ => ?_⟩
      simp only [scanWord_append]
      rfl

theorem extentFrom_scanNumber {c : Char} {r : List Char} {negative : Bool}
    (hscan : ∀ steps r, scan (steps + 1) depth (c :: r) =
      (scanNumber negative r).map fun p => (.number p.1, p.2)) :
    ExtentFrom steps depth (c :: r) := by
  refine extentFrom_token _ _ hscan fun a rest h => ?_
  obtain ⟨used, rfl, hn, hd, ht⟩ := scanNumber_takes h
  exact ⟨used, rfl, endsValue_append (endsValue_of_endsInDigit hd hn) [c], ht⟩

theorem extentFrom_digit {c : Char} {r : List Char} (hc : isDigit c = true) :
    ExtentFrom steps depth (c :: r) := by
  have hne : ∀ d, isDigit d = false → c ≠ d := fun d hd => ne_of_isDigit hc hd
  refine extentFrom_token (fun r => scanNumber false (c :: r)) .number (fun steps r => ?_)
    fun a rest h => ?_
  · have hs : isSpace c = false := by
      simp [isSpace, hne ' ' rfl, hne '\t' rfl, hne '\n' rfl, hne '\r' rfl]
    rw [scan, skipSpace_cons hs]
    split
    case h_9 he =>
      obtain ⟨rfl, rfl⟩ := List.cons.inj he
      exact if_pos hc
    case h_1 he => cases he
    all_goals
      rename_i he
      cases he
      exact absurd rfl (hne _ rfl)
  · obtain ⟨used, hused, hn, hd, ht⟩ := scanNumber_takes h
    cases used with
    | nil => exact absurd rfl hn
    | cons d used =>
      cases hused
      exact ⟨used, rfl, endsValue_of_endsInDigit hd hn, ht⟩

theorem extentFrom_string {r : List Char} : ExtentFrom steps depth ('"' :: r) := by
  refine extentFrom_token (scanString []) (fun s => .string (String.ofList s))
    (fun _ _ => rfl) fun a rest h => ?_
  obtain ⟨chars, inside, hin, rfl, rfl⟩ := spellsChars_of_scanString h
  refine ⟨inside ++ ['"'], by simp, ?_, fun rest _ => ?_⟩
  · exact endsValue_of_ne rfl (by decide) ('"' :: inside)
  · rw [List.append_assoc]
    exact scanString_chars hin

theorem extentFrom_list {r : List Char} (hi : ItemsExtent steps) :
    ExtentFrom steps depth ('[' :: r) := by
  intro v rest h
  have hb : isSpace '[' = false := rfl
  cases depth with
  | zero => cases h
  | succ depth =>
    have h : scanItems steps depth [] r = .ok (v, rest) := h
    obtain ⟨body, rfl, hlast, -, hitems⟩ := hi h
    refine ⟨'[' :: body ++ [']'], by simp, ⟨'[' :: body, ']', rfl, rfl, fun _ => ?_⟩, ?_⟩
    · rw [← List.singleton_append, lastSolid?_append, lastSolid?_singleton hb]
      cases hl : lastSolid? body with
      | none => exact ⟨'[', rfl, .inl rfl⟩
      | some d => exact ⟨d, rfl, .inr (hlast d hl)⟩
    · intro steps hs rest _
      obtain ⟨steps, rfl⟩ := exists_succ (by simp) hs
      simp only [List.length_append, List.length_cons] at hs
      have hread := hitems steps rest (by omega)
      rw [List.append_assoc, List.cons_append, scan, skipSpace_cons hb]
      exact hread

theorem extentFrom_object {r : List Char} (hm : MembersExtent steps) :
    ExtentFrom steps depth ('\x7b' :: r) := by
  intro v rest h
  have hb : isSpace '\x7b' = false := rfl
  cases depth with
  | zero => cases h
  | succ depth =>
    have h : scanMembers steps depth true [] r = .ok (v, rest) := h
    obtain ⟨body, rfl, -, hmembers⟩ := hm h
    refine ⟨'\x7b' :: body ++ ['\x7d'], by simp, ?_, ?_⟩
    · exact endsValue_of_ne rfl (by decide) ('\x7b' :: body)
    · intro steps hs rest _
      obtain ⟨steps, rfl⟩ := exists_succ (by simp) hs
      simp only [List.length_append, List.length_cons] at hs
      have hread := hmembers steps rest (by omega)
      rw [List.append_assoc, List.cons_append, scan, skipSpace_cons hb]
      exact hread

/-- Every value begins with one of these characters. -/
theorem extentFrom (hi : ItemsExtent steps) (hm : MembersExtent steps) {c : Char} {r : List Char}
    (hs : isSpace c = false) : ExtentFrom steps depth (c :: r) := by
  intro v rest h
  have hh := h
  rw [scan, skipSpace_cons hs] at hh
  split at hh
  · cases hh
  · rename_i heq
    cases heq
    exact extentFrom_word (fun _ _ => rfl) (endsValue_of_ne rfl (by decide) ['n', 'u', 'l'])
      v rest h
  · rename_i heq
    cases heq
    exact extentFrom_word (fun _ _ => rfl) (endsValue_of_ne rfl (by decide) ['t', 'r', 'u'])
      v rest h
  · rename_i heq
    cases heq
    exact extentFrom_word (fun _ _ => rfl) (endsValue_of_ne rfl (by decide) ['f', 'a', 'l', 's'])
      v rest h
  · rename_i heq
    cases heq
    exact extentFrom_scanNumber (fun _ _ => rfl) v rest h
  · rename_i heq
    cases heq
    exact extentFrom_string v rest h
  · rename_i heq
    cases heq
    exact extentFrom_list hi v rest h
  · rename_i heq
    cases heq
    exact extentFrom_object hm v rest h
  · rename_i heq
    cases heq
    split at hh
    · rename_i hd
      exact extentFrom_digit hd v rest h
    · cases hh

theorem extent_succ (hi : ItemsExtent steps) (hm : MembersExtent steps) : Extent (steps + 1) := by
  intro depth cs v rest h
  obtain ⟨gap, hg, hcs⟩ := skipSpace_split cs
  cases hskip : skipSpace cs with
  | nil =>
    rw [scan, hskip] at h
    cases h
  | cons c r =>
    rw [hskip] at hcs
    subst hcs
    rw [scan_blank hg] at h
    obtain ⟨used, hused, hend, htakes⟩ := extentFrom hi hm (not_isSpace_of_skipSpace hskip) v rest h
    refine ⟨gap ++ used, by rw [hused, List.append_assoc], endsValue_append hend gap, ?_⟩
    intro steps hs rest hr
    rw [List.length_append] at hs
    obtain ⟨steps, rfl⟩ := exists_succ (List.length_pos_iff.mpr (endsValue_ne_nil hend))
      (Nat.le_trans (Nat.le_add_left _ _) hs)
    rw [List.append_assoc, scan_blank hg]
    exact htakes (steps + 1) (by omega) rest hr

/-- A value, items and members call each other with one step less. -/
theorem extents (steps : Nat) : Extent steps ∧ ItemsExtent steps ∧ MembersExtent steps := by
  induction steps with
  | zero =>
    refine ⟨?_, ?_, ?_⟩
    · intro depth cs v rest h
      cases h
    · intro depth acc cs v rest h
      cases h
    · intro depth first members cs v rest h
      cases h
  | succ steps ih =>
    obtain ⟨hv, hi, hm⟩ := ih
    exact ⟨extent_succ hi hm, itemsExtent_succ hv hi, membersExtent_succ hv hm⟩

end Value

namespace Value

variable {text : String}

/-- A text that is read is a value with blanks after it, and it is read alike with any others. -/
theorem read_extent (h : Value.read text = .ok v) :
    ∃ used gap, text.toList = used ++ gap ∧ Blank gap ∧ EndsValue used ∧
      ∀ gap, Blank gap → Value.read (String.ofList (used ++ gap)) = .ok v := by
  obtain ⟨gap, hg, hscan⟩ := decode_eq_ok.mp h
  obtain ⟨used, htext, hend, htakes⟩ := (extents _).1 hscan
  refine ⟨used, gap, htext, hg, hend, fun gap' hg' => ?_⟩
  have hends : Ends gap' := by simpa using ends_blank hg' ends_nil
  refine decode_eq_ok.mpr ⟨gap', hg', ?_⟩
  rw [String.toList_ofList]
  exact htakes _ (by simp only [Budget.ofText, List.length_append]; omega) gap' hends

theorem read_append_blank (h : Value.read text = .ok v) (hg : Blank gap) :
    Value.read (String.ofList (text.toList ++ gap)) = .ok v := by
  obtain ⟨used, gap', htext, hg', -, hread⟩ := read_extent h
  rw [htext, List.append_assoc]
  exact hread _ fun c hc => (List.mem_append.mp hc).elim (hg' c) (hg c)

/-- Blanks at the end may go. -/
theorem read_of_append_blank (h : Value.read (String.ofList (cs ++ gap)) = .ok v)
    (hg : Blank gap) : Value.read (String.ofList cs) = .ok v := by
  obtain ⟨used, gap', htext, hg', hend, hread⟩ := read_extent h
  rw [String.toList_ofList] at htext
  rcases List.append_eq_append_iff.mp htext with ⟨more, hused, hgap⟩ | ⟨more, rfl, hgap⟩
  · -- The value ends with no blank, so it does not reach into the blanks.
    rcases List.eq_nil_or_concat more with rfl | ⟨more, b, rfl⟩
    · rw [List.append_nil] at hused
      rw [← hused, ← List.append_nil used]
      exact hread [] blank_nil
    · obtain ⟨front, c, rfl, hc, -⟩ := hend
      rw [List.concat_eq_append, ← List.append_assoc] at hused
      obtain ⟨-, hlast⟩ := List.append_inj' hused rfl
      cases hlast
      have hb : isSpace b = true := hg b (by simp [hgap])
      rw [not_isSpace_of_isFinal hc] at hb
      cases hb
  · exact hread more fun c hc => hg' c (hgap ▸ List.mem_append_left _ hc)

/-- A text with a closing bracket behind something that ends no item is no value. -/
theorem not_read_of_closing {d : Char} (hs : isSpace d = false) (hb : d ≠ '[')
    (hf : isFinal d = false) (htext : text.toList = cs ++ [d, ']']) :
    Value.read text ≠ .ok v := by
  intro h
  obtain ⟨used, gap, htext', hg, ⟨front, c, rfl, hc, hclose⟩, -⟩ := read_extent h
  have hends : cs ++ [d] ++ [']'] = front ++ [c] ++ gap := by simp [← htext, htext']
  rcases List.eq_nil_or_concat gap with rfl | ⟨gap, b, rfl⟩
  · rw [List.append_nil] at hends
    obtain ⟨rfl, hlast⟩ := List.append_inj' hends rfl
    cases hlast
    obtain ⟨e, he, hf'⟩ := hclose rfl
    rw [lastSolid?_append, lastSolid?_singleton hs] at he
    cases he
    rcases hf' with rfl | hf'
    · exact hb rfl
    · rw [hf] at hf'
      cases hf'
  · rw [List.concat_eq_append, ← List.append_assoc] at hends
    obtain ⟨-, hlast⟩ := List.append_inj' hends rfl
    cases hlast
    have hspace : isSpace ']' = true := hg ']' (by simp)
    cases hspace

end Value

end HandlerHost.Json
