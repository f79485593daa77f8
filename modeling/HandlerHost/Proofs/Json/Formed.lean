import HandlerHost.Json.Skip
import HandlerHost.Proofs.Json.TokenExtent

/-!
Well-formed texts. A numeral may have any size here, a surrogate may stand alone, and brackets may
be open to any depth. Each of these texts is passed over as one value, whatever brackets are open
around it.
-/
namespace HandlerHost.Json

open Text (isDigit)

variable {c : Char} {cs ds text tail before gap rest rest' : List Char} {first : Bool}
  {b : Bracket} {stack : List Bracket} {k k' n steps : Nat}

/-- A character of a string or an escape. -/
inductive FormedChar : List Char → Prop
  | plain {c : Char} (hc : 0x20 ≤ c.toNat) (hq : c ≠ '"') (hb : c ≠ '\\') : FormedChar [c]
  | letter {e c : Char} (h : escaped? e = some c) : FormedChar ['\\', e]
  | unit {a b c d : Char} {n : Nat} (h : hexQuad? a b c d = some n) :
      FormedChar ['\\', 'u', a, b, c, d]

inductive FormedChars : List Char → Prop
  | nil : FormedChars []
  | cons {w ws : List Char} (h : FormedChar w) (hs : FormedChars ws) : FormedChars (w ++ ws)

inductive FormedString : List Char → Prop
  | mk {inside : List Char} (h : FormedChars inside) : FormedString ('"' :: (inside ++ ['"']))

/-- Digits, at least one. -/
def IsDigits (ds : List Char) : Prop := ds ≠ [] ∧ ∀ d ∈ ds, isDigit d = true

/-- Digits of which the first is zero only if it is the only one. -/
def IsWhole (ds : List Char) : Prop := IsDigits ds ∧ (ds.head? = some '0' → ds = ['0'])

/-- A point and digits, or nothing. -/
def IsFraction (cs : List Char) : Prop := cs = [] ∨ ∃ ds, IsDigits ds ∧ cs = '.' :: ds

/-- An exponent, or nothing. -/
def IsScale (cs : List Char) : Prop :=
  cs = [] ∨ ∃ e sign ds, (e = 'e' ∨ e = 'E') ∧ IsSign sign ∧ IsDigits ds ∧ cs = e :: (sign ++ ds)

/-- A numeral without its minus sign. -/
inductive FormedNumeral : List Char → Prop
  | mk {ds fraction scale : List Char} (hd : IsWhole ds) (hf : IsFraction fraction)
      (hs : IsScale scale) : FormedNumeral (ds ++ (fraction ++ scale))

/-- A key, a colon and a value. -/
inductive FormedMember (formed : List Char → Prop) : List Char → Prop
  | mk {key before after text : List Char} (hk : FormedString key) (hb : Blank before)
      (ha : Blank after) (h : formed text) :
      FormedMember formed (key ++ before ++ ':' :: after ++ text)

/-- Well-formed texts, from the first character to the last. Of what stands between brackets only
the number of items is named. -/
inductive Formed : List Char → Prop
  | null : Formed ['n', 'u', 'l', 'l']
  | true : Formed ['t', 'r', 'u', 'e']
  | false : Formed ['f', 'a', 'l', 's', 'e']
  | numeral {text : List Char} (h : FormedNumeral text) : Formed text
  | negative {text : List Char} (h : FormedNumeral text) : Formed ('-' :: text)
  | string {text : List Char} (h : FormedString text) : Formed text
  | array {items : List Unit} {tail : List Char}
      (h : SpellsItems ']' (fun _ => Formed) Bool.true items tail) : Formed ('[' :: tail)
  | object {items : List Unit} {tail : List Char}
      (h : SpellsItems '\x7d' (fun _ => FormedMember Formed) Bool.true items tail) :
      Formed ('\x7b' :: tail)

theorem skipString_char {w : List Char} (h : FormedChar w) :
    skipString (w ++ rest) = skipString rest := by
  cases h with
  | plain hc hq hb =>
    have hn : ¬ _ < 0x20 := Nat.not_lt.mpr hc
    rw [List.singleton_append, skipString.eq_def]
    split
    case h_7 he =>
      obtain ⟨rfl, rfl⟩ := List.cons.inj he
      exact if_neg hn
    all_goals simp_all
  | letter h =>
    unfold escaped? at h
    split at h <;> cases h <;> rfl
  | unit h => simp [skipString, h]

theorem skipString_chars (h : FormedChars cs) : skipString (cs ++ '"' :: rest) = .ok rest := by
  induction h with
  | nil => rfl
  | cons h _ ih => rw [List.append_assoc, skipString_char h, ih]

theorem exists_digit (hd : IsDigits ds) (hr : Halts rest) :
    ∃ d r, ds ++ rest = d :: r ∧ isDigit d = true ∧ r.dropWhile isDigit = rest := by
  obtain ⟨hn, hd⟩ := hd
  cases ds with
  | nil => contradiction
  | cons d ds =>
    exact ⟨d, ds ++ rest, rfl, hd d List.mem_cons_self,
      dropWhile_digits (fun c hc => hd c (List.mem_cons_of_mem _ hc)) hr⟩

theorem skipExponent_digits {sign : List Char} (hs : IsSign sign) (hd : IsDigits ds)
    (hr : Halts rest) : skipExponent (sign ++ (ds ++ rest)) = .ok rest := by
  obtain ⟨d, r, he, hdigit, hdrop⟩ := exists_digit hd hr
  have hne : d ≠ '+' ∧ d ≠ '-' := ⟨ne_of_isDigit hdigit rfl, ne_of_isDigit hdigit rfl⟩
  rw [he]
  rcases hs with rfl | rfl | rfl <;> simp [skipExponent, hdigit, hdrop, hne]

theorem skipScale_ends (hr : Ends rest) : skipScale rest = .ok rest := by
  cases rest with
  | nil => rfl
  | cons c rest =>
    have hc := ends_ne hr
    unfold skipScale
    split <;> simp_all

theorem skipScale_scale (hs : IsScale cs) (hr : Ends rest) : skipScale (cs ++ rest) = .ok rest := by
  obtain rfl | ⟨e, sign, ds, he, hsign, hd, rfl⟩ := hs
  · exact skipScale_ends hr
  · have h := skipExponent_digits hsign hd (halts_of_ends hr)
    rw [List.cons_append, List.append_assoc]
    rcases he with rfl | rfl <;> exact h

theorem halts_scale (hs : IsScale cs) (hr : Ends rest) : Halts (cs ++ rest) := by
  obtain rfl | ⟨e, sign, ds, he, -, -, rfl⟩ := hs
  · exact halts_of_ends hr
  · apply halts_cons
    rcases he with rfl | rfl <;> rfl

theorem skipTail_scale (hs : IsScale cs) (hr : Ends rest) : skipTail (cs ++ rest) = .ok rest := by
  have hp : ∀ r, cs ++ rest ≠ '.' :: r := by
    intro r he
    obtain rfl | ⟨e, sign, ds, hx, -, -, rfl⟩ := hs
    · rw [List.nil_append] at he
      subst he
      exact (ends_ne hr).2.2 rfl
    · rcases hx with rfl | rfl <;> cases he
  rw [skipTail.eq_def]
  split
  · exact absurd (by assumption) (hp _)
  · exact skipScale_scale hs hr

theorem skipTail_fraction {fraction scale : List Char} (hf : IsFraction fraction)
    (hs : IsScale scale) (hr : Ends rest) :
    Halts (fraction ++ (scale ++ rest)) ∧ skipTail (fraction ++ (scale ++ rest)) = .ok rest := by
  rcases hf with rfl | ⟨ds, hd, rfl⟩
  · rw [List.nil_append]
    exact ⟨halts_scale hs hr, skipTail_scale hs hr⟩
  · obtain ⟨d, r, he, hdigit, hdrop⟩ := exists_digit hd (halts_scale hs hr)
    refine ⟨halts_cons rfl, ?_⟩
    rw [List.cons_append, he]
    simp [skipTail, hdigit, hdrop, skipScale_scale hs hr]

/-- A digit that is no leading zero goes on with digits, and then comes what ends the numeral. -/
theorem skipNumber_whole (hd : IsWhole ds) (hr : Halts rest) :
    skipNumber (ds ++ rest) = skipTail rest := by
  obtain ⟨hd, hz⟩ := hd
  obtain ⟨d, r, he, hdigit, hdrop⟩ := exists_digit hd hr
  by_cases h0 : d = '0'
  · subst h0
    have hds : ds = ['0'] := by
      apply hz
      obtain ⟨hn, -⟩ := hd
      cases ds with
      | nil => contradiction
      | cons e ds =>
        obtain ⟨rfl, -⟩ := List.cons.inj he
        rfl
    subst hds
    cases rest with
    | nil => rfl
    | cons c rest => simp [skipNumber, hr c rfl]
  · rw [he, skipNumber.eq_4 _ _ (by simpa using h0), if_pos hdigit, hdrop]

theorem skipNumber_numeral (h : FormedNumeral cs) (hr : Ends rest) :
    skipNumber (cs ++ rest) = .ok rest := by
  cases h with
  | mk hd hf hs =>
    obtain ⟨hh, ht⟩ := skipTail_fraction hf hs hr
    rw [List.append_assoc, List.append_assoc, skipNumber_whole hd hh, ht]

/-- From here a value is passed over, in one step more than this. -/
def Passes (k : Nat) (cs rest : List Char) : Prop :=
  ∀ n stack, skipFrom (n + k + 1) stack cs = skipClosing n stack rest

/-- The same of what stands between brackets, from the opening one on or from behind an item. -/
def skipInside (b : Bracket) (first : Bool) (steps : Nat) (stack : List Bracket) (cs : List Char) :
    Except Fault (List Char) :=
  if first then skipOpened steps b stack cs else skipClosing steps (b :: stack) cs

def PassesInside (b : Bracket) (first : Bool) (k : Nat) (cs rest : List Char) : Prop :=
  ∀ n stack, skipInside b first (n + k + 1) stack cs = skipClosing n stack rest

theorem skipFrom_blank (hg : Blank gap) :
    skipFrom (n + 1) stack (gap ++ cs) = skipFrom (n + 1) stack cs := by
  rw [skipFrom, skipFrom, skipSpace_blank hg]

theorem passes_blank (hg : Blank gap) : Passes k (gap ++ cs) rest ↔ Passes k cs rest := by
  simp only [Passes, skipFrom_blank hg]

/-- A value is passed over in one way. -/
theorem passes_unique (h : Passes k cs rest) (h' : Passes k' cs rest') : rest = rest' := by
  have hk : skipFrom (k' + 1 + k + 1) [] cs = .ok rest := h (k' + 1) []
  have hk' : skipFrom (k + 1 + k' + 1) [] cs = .ok rest' := h' (k + 1) []
  rw [show k' + 1 + k + 1 = k + 1 + k' + 1 by omega, hk'] at hk
  exact (Except.ok.inj hk).symm

theorem skipValue_passes (h : Passes k cs rest) (hk : k ≤ 2 * steps) :
    skipValue steps cs = .ok rest := by
  obtain ⟨n, hn⟩ : ∃ n, 2 * steps + 2 = n + 1 + k + 1 := ⟨2 * steps - k, by omega⟩
  rw [skipValue, hn, h]
  rfl

/-- What stands before an item is passed over, and before the value of a member its key as well. -/
def skipLead : Bracket → List Char → Except Fault (List Char)
  | .square, cs => .ok cs
  | .curly, cs => skipKey cs

def FormedItem : Bracket → List Char → Prop
  | .square => Formed
  | .curly => FormedMember Formed

theorem isSpace_closing : isSpace b.closing = false := by
  cases b <;> rfl

theorem inside_closing (hg : Blank gap) :
    PassesInside b first 0 (gap ++ b.closing :: rest) rest := by
  intro n stack
  have hs : skipSpace (gap ++ b.closing :: rest) = b.closing :: rest := by
    rw [skipSpace_blank hg, skipSpace_cons isSpace_closing]
  have hc : b.closing ≠ ',' := by cases b <;> decide
  cases first with
  | true => simp only [skipInside, if_true, skipOpened, hs, beq_self_eq_true]
  | false => simp [skipInside, skipClosing, hs, hc]

/-- Behind the opening bracket an item comes at once, and later a comma stands before it. -/
theorem inside_item (hb : Separator first before) (hg : Blank gap) (hs : isSpace c = false)
    (hc : c ≠ b.closing) : ∃ lead, Blank lead ∧ ∀ n stack rest,
      skipInside b first (n + 1) stack (before ++ gap ++ c :: rest) =
        skipLead b (lead ++ c :: rest) >>= skipFrom n (b :: stack) := by
  cases first with
  | true =>
    cases hb
    refine ⟨[], blank_nil, fun n stack rest => ?_⟩
    rw [List.nil_append, List.nil_append]
    simp only [skipInside, if_true, skipOpened, skipSpace_blank hg, skipSpace_cons hs, beq_iff_eq,
      hc, if_false]
    cases b <;> rfl
  | false =>
    obtain ⟨gap', hg', rfl⟩ := hb
    refine ⟨gap, hg, fun n stack rest => ?_⟩
    simp only [skipInside, Bool.false_eq_true, if_false, skipClosing, List.append_assoc,
      List.singleton_append, skipSpace_blank hg']
    cases b <;> rfl

theorem numeral_opens (h : FormedNumeral cs) : ∃ c r, cs = c :: r ∧ isDigit c = true := by
  cases h with
  | mk hd hf hs =>
    obtain ⟨⟨hn, hd⟩, -⟩ := hd
    obtain ⟨d, ds, rfl⟩ := List.exists_cons_of_ne_nil hn
    exact ⟨d, _, rfl, hd d List.mem_cons_self⟩

theorem digit_opens (hc : isDigit c = true) : isSpace c = false ∧ c ≠ ']' := by
  have ho : (Value.number (.integer 0)).Opens c := .inr hc
  exact ⟨(opens_ne ho).1, (opens_ne ho).2.2⟩

/-- No blank and no closing bracket begins a value or a member. -/
theorem formed_opens (h : Formed cs) : ∃ c r, cs = c :: r ∧ isSpace c = false ∧ c ≠ ']' := by
  cases h with
  | numeral h =>
    obtain ⟨c, r, rfl, hc⟩ := numeral_opens h
    exact ⟨c, r, rfl, digit_opens hc⟩
  | string h =>
    cases h with
    | mk _ => exact ⟨_, _, rfl, rfl, by decide⟩
  | _ => exact ⟨_, _, rfl, rfl, by decide⟩

theorem formedItem_opens (h : FormedItem b cs) :
    ∃ c r, cs = c :: r ∧ isSpace c = false ∧ c ≠ b.closing := by
  cases b with
  | square => exact formed_opens h
  | curly =>
    cases h with
    | mk hk hb ha h =>
      cases hk with
      | mk _ => exact ⟨_, _, rfl, rfl, by decide⟩

/-- What is to be shown of a text: no more than two steps are needed for each character. -/
def PassesOver (text : List Char) : Prop :=
  ∀ rest, Ends rest → ∃ k, k + 1 ≤ 2 * text.length ∧ Passes k (text ++ rest) rest

theorem lead_item (hg : Blank gap) (h : FormedItem b text) (hr : Ends rest)
    (hp : ∀ cs, Formed cs → cs.length ≤ text.length → PassesOver cs) :
    ∃ cs k, skipLead b (gap ++ (text ++ rest)) = .ok cs ∧ k + 1 ≤ 2 * text.length ∧
      Passes k cs rest := by
  cases b with
  | square =>
    obtain ⟨k, hk, hpass⟩ := hp text h (Nat.le_refl _) rest hr
    exact ⟨_, k, rfl, hk, (passes_blank hg).mpr hpass⟩
  | curly =>
    cases h with
    | @mk key colon after text hkey hcolon ha h =>
      cases hkey with
      | @mk inside hin =>
        simp only [List.length_append, List.length_cons] at hp
        obtain ⟨k, hk, hpass⟩ := hp text h (by omega) rest hr
        refine ⟨after ++ (text ++ rest), k, ?_, ?_, (passes_blank ha).mpr hpass⟩
        · have hq : isSpace '"' = false := rfl
          simp only [skipLead, skipKey, List.append_assoc, List.cons_append, skipSpace_blank hg,
            skipSpace_cons hq, List.nil_append, skipString_chars hin, bind, Except.bind]
          exact scanColon_blank hcolon
        · simp only [List.length_append, List.length_cons]
          omega

theorem ends_inside {items : List Unit} (h : SpellsItems b.closing (fun _ => FormedItem b) false
    items tail) : Ends (tail ++ rest) :=
  ends_items (by cases b <;> simp [Bracket.closing]) h

/-- One step finds an item; then come the item and what follows it. -/
theorem passesInside_cons {next : List Char}
    (hi : ∀ n stack, skipInside b first (n + 1) stack cs = skipFrom n (b :: stack) next)
    (hp : Passes k next rest') (hr : PassesInside b false k' rest' rest) :
    PassesInside b first (k' + k + 2) cs rest := by
  intro n stack
  have hsteps : n + (k' + k + 2) + 1 = n + k' + 1 + k + 1 + 1 := by omega
  rw [hsteps, hi, hp]
  exact hr n stack

/-- Items are passed over one after the other. Behind the opening bracket no comma pays for the
step that finds the item. -/
theorem inside_items {items : List Unit}
    (h : SpellsItems b.closing (fun _ => FormedItem b) first items tail)
    (hp : ∀ cs, Formed cs → cs.length ≤ tail.length → PassesOver cs) :
    ∃ k, k + 1 ≤ 2 * tail.length + first.toNat ∧ PassesInside b first k (tail ++ rest) rest := by
  induction h with
  | nil hg =>
    refine ⟨0, ?_, ?_⟩
    · simp only [List.length_append, List.length_singleton]
      omega
    · rw [List.append_assoc]
      exact inside_closing hg
  | @cons first _ _ before gap text tail hb hg hi has ih =>
    simp only [List.length_append] at hp
    obtain ⟨k', hk', hrest⟩ := ih fun cs hf hl => hp cs hf (by omega)
    obtain ⟨c, r, rfl, hs, hc⟩ := formedItem_opens hi
    obtain ⟨lead, hl, hinside⟩ := inside_item hb hg hs hc
    obtain ⟨cs, k, hlead, hk, hpass⟩ := lead_item hl hi (ends_inside has) fun cs hf hl =>
      hp cs hf (by omega)
    refine ⟨k' + k + 2, ?_, passesInside_cons (fun n stack => ?_) hpass hrest⟩
    · have hcomma : 1 ≤ before.length + first.toNat := by
        cases first with
        | true => exact Nat.le_add_left _ _
        | false =>
          obtain ⟨gap', -, rfl⟩ := hb
          simp
      simp only [List.length_append, Bool.toNat_false] at hk' ⊢
      omega
    · simp only [List.append_assoc, List.cons_append] at hlead ⊢
      rw [← List.append_assoc, hinside, hlead]
      rfl

/-- A token is passed over in one step. -/
theorem passesOver_token (hn : text ≠ [])
    (h : ∀ rest, Ends rest → Passes 0 (text ++ rest) rest) : PassesOver text := by
  intro rest hr
  have hl := List.length_pos_iff.mpr hn
  exact ⟨0, by omega, h rest hr⟩

theorem passesOver_bracket {opening : Char} {items : List Unit}
    (ho : ∀ n stack r, skipFrom (n + 1) stack (opening :: r) = skipOpened n b stack r)
    (h : SpellsItems b.closing (fun _ => FormedItem b) true items tail)
    (hp : ∀ cs, Formed cs → cs.length ≤ tail.length → PassesOver cs) :
    PassesOver (opening :: tail) := by
  intro rest hr
  obtain ⟨k, hk, hinside⟩ := inside_items h hp
  refine ⟨k + 1, ?_, fun n stack => ?_⟩
  · simp only [Bool.toNat_true, List.length_cons] at hk ⊢
    omega
  · rw [List.cons_append, ho]
    exact hinside n stack

theorem skipFrom_digit (hc : isDigit c = true) :
    skipFrom (n + 1) stack (c :: cs) = skipNumber (c :: cs) >>= skipClosing n stack := by
  rw [skipFrom, skipSpace_cons (digit_opens hc).1]
  split <;> rename_i he
  any_goals exact absurd (List.cons.inj he).1 (ne_of_isDigit hc rfl)
  · cases he
  · obtain ⟨rfl, rfl⟩ := List.cons.inj he
    rw [if_pos hc]

theorem formed_passesOver (h : Formed text) : PassesOver text := by
  induction hn : text.length using Nat.strong_induction_on generalizing text with
  | _ n ih =>
    subst hn
    cases h with
    | null => exact passesOver_token (by simp) fun _ _ _ _ => rfl
    | true => exact passesOver_token (by simp) fun _ _ _ _ => rfl
    | false => exact passesOver_token (by simp) fun _ _ _ _ => rfl
    | numeral h =>
      obtain ⟨c, r, rfl, hc⟩ := numeral_opens h
      refine passesOver_token (by simp) fun rest hr n stack => ?_
      have hskip := skipNumber_numeral h hr
      rw [List.cons_append] at hskip ⊢
      rw [skipFrom_digit hc, hskip]
      rfl
    | @negative cs h =>
      refine passesOver_token (by simp) fun rest hr n stack => ?_
      have hs : skipFrom (n + 0 + 1) stack ('-' :: (cs ++ rest)) =
          skipNumber (cs ++ rest) >>= skipClosing n stack := rfl
      rw [List.cons_append, hs, skipNumber_numeral h hr]
      rfl
    | string h =>
      cases h with
      | @mk inside h =>
        refine passesOver_token (by simp) fun rest hr n stack => ?_
        have hs : skipFrom (n + 0 + 1) stack ('"' :: (inside ++ '"' :: rest)) =
            skipString (inside ++ '"' :: rest) >>= skipClosing n stack := rfl
        rw [List.cons_append, List.append_assoc, List.singleton_append, hs, skipString_chars h]
        rfl
    | array h =>
      exact passesOver_bracket (b := .square) (fun _ _ _ => rfl) h fun cs hf hl =>
        ih cs.length (Nat.lt_succ_of_le hl) hf rfl
    | object h =>
      exact passesOver_bracket (b := .curly) (fun _ _ _ => rfl) h fun cs hf hl =>
        ih cs.length (Nat.lt_succ_of_le hl) hf rfl

/-- A well-formed text is passed over, with blanks in front. -/
theorem skipValue_formed (hg : Blank gap) (h : Formed text) (hr : Ends rest)
    (hs : text.length ≤ steps) : skipValue steps (gap ++ text ++ rest) = .ok rest := by
  obtain ⟨k, hk, hpass⟩ := formed_passesOver h rest hr
  rw [List.append_assoc]
  exact skipValue_passes ((passes_blank hg).mpr hpass) (by omega)

end HandlerHost.Json
