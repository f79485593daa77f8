import HandlerHost.Json.Decoder
import HandlerHost.Proofs.Json.Denoted
import HandlerHost.Proofs.Json.Formed

/-!
Reading and passing over. Whatever a reader takes for a value is passed over as one, and as just
the same part of the text. So a typed reader that succeeds on a well-formed text has read all of
it and nothing that follows.
-/
namespace HandlerHost.Json

open Text (isDigit)

variable {α δ : Type} {cs rest rest' next text gap acc s : List Char} {number : Number}
  {negative first : Bool} {significand k n steps : Nat} {exponent : Int} {stack : List Bracket}

theorem formedChars_of_spellsChars {cs ws : List Char} (h : SpellsChars cs ws) :
    FormedChars ws := by
  induction h with
  | nil => exact .nil
  | cons h _ ih =>
    cases h with
    | plain hc hq hb => exact .cons (.plain hc hq hb) ih
    | letter h => exact .cons (.letter h) ih
    | unit h => exact .cons (.unit h) ih
    | pair hn _ hm _ =>
      have hw : FormedChars _ := .cons (.unit hn) (.cons (.unit hm) ih)
      exact hw

theorem skipString_of_scanString (h : scanString acc cs = .ok (s, rest)) :
    skipString cs = .ok rest := by
  obtain ⟨chars, inside, hin, rfl, -⟩ := spellsChars_of_scanString h
  exact skipString_chars (formedChars_of_spellsChars hin)

theorem skipExponent_of_scanExponent
    (h : scanExponent negative significand exponent cs = .ok (number, rest)) :
    skipExponent cs = .ok rest := by
  obtain ⟨sign, c, ds, rest', hs, hc, hd, hr, rfl⟩ := exists_exponent h
  obtain ⟨rfl, -⟩ := takes_of_settles (scanExponent_settles hs hc hd) hr h
  rw [List.append_assoc]
  exact skipExponent_digits hs ⟨by simp, List.forall_mem_cons.mpr ⟨hc, hd⟩⟩ hr

theorem skipScale_of_scanScale
    (h : scanScale negative significand exponent cs = .ok (number, rest)) :
    skipScale cs = .ok rest := by
  rw [scanScale.eq_def] at h
  split at h
  · exact skipExponent_of_scanExponent h
  · exact skipExponent_of_scanExponent h
  · rename_i he hE
    obtain ⟨-, rfl⟩ := finishReal_eq_ok.mp h
    exact skipScale.eq_3 _ he hE

theorem skipTail_of_scanFraction
    (h : scanFraction negative significand exponent cs = .ok (number, rest)) :
    skipTail ('.' :: cs) = .ok rest := by
  obtain ⟨ds, tail, rfl, hd, hr⟩ := exists_digits cs
  have hn := digits_ne_nil_of_scanFraction hr h
  rw [scanFraction_digits hd hn hr] at h
  obtain ⟨d, r, he, hdigit, hdrop⟩ := exists_digit ⟨hn, hd⟩ hr
  rw [he]
  simp only [skipTail, hdigit, if_true, hdrop]
  exact skipScale_of_scanScale h

theorem skipTail_of_scanTail (h : scanTail negative significand cs = .ok (number, rest)) :
    skipTail cs = .ok rest := by
  rw [scanTail.eq_def] at h
  split at h
  · exact skipTail_of_scanFraction h
  · exact skipExponent_of_scanExponent h
  · exact skipExponent_of_scanExponent h
  · rename_i hp he hE
    cases h
    rw [skipTail.eq_def]
    split
    · exact absurd rfl (hp _)
    · rw [skipScale.eq_def]
      split
      · exact absurd rfl (he _)
      · exact absurd rfl (hE _)
      · rfl

theorem skipTail_of_scanScale (hp : cs.head? ≠ some '.')
    (h : scanScale negative significand exponent cs = .ok (number, rest)) :
    skipTail cs = .ok rest := by
  rw [skipTail.eq_def]
  split
  · exact absurd rfl hp
  · exact skipScale_of_scanScale h

/-- Digits that a significand has no room for are passed over like the others. -/
theorem skipTail_of_numeralEnd {left : List Char} (hd : ∀ c ∈ left, isDigit c = true)
    (hr : Halts cs) (h : numeralEnd negative significand left cs = .ok (number, rest)) :
    skipTail cs = .ok rest := by
  unfold numeralEnd at h
  split at h
  · exact skipTail_of_scanTail h
  · by_cases hp : cs.head? = some '.'
    · obtain ⟨r, rfl⟩ := List.head?_eq_some_iff.mp hp
      rw [scanLongTail_point hd] at h
      exact skipTail_of_scanFraction h
    · rw [scanLongTail_scale hd hr hp] at h
      exact skipTail_of_scanScale hp h

theorem skipNumber_of_scanNumber (h : scanNumber negative cs = .ok (number, rest)) :
    skipNumber cs = .ok rest := by
  obtain ⟨tail, hr, rfl, hend⟩ | ⟨c, ds, tail, hz, hc, hd, hr, rfl, hend⟩ := scanNumber_cases h
  · have hw : IsWhole ['0'] := ⟨⟨by simp, List.forall_mem_singleton.mpr rfl⟩, fun _ => rfl⟩
    exact (skipNumber_whole hw hr).trans (skipTail_of_scanTail hend)
  · have hw : IsWhole (c :: ds) := ⟨⟨by simp, List.forall_mem_cons.mpr ⟨hc, hd⟩⟩, by simp [hz]⟩
    exact (skipNumber_whole hw hr).trans
      (skipTail_of_numeralEnd (digits_scanSignificand _ _ hd) hr hend)

/-- A word or a literal is passed over in one step. -/
theorem passes_of_token {skipped : Except Fault (List Char)} (hs : skipped = .ok rest)
    (h : ∀ n stack, skipFrom (n + 1) stack cs = skipped >>= skipClosing n stack) :
    Passes 0 cs rest := by
  intro n stack
  rw [Nat.add_zero, h, hs]
  rfl

/-- What can be passed over can be with the space in front of it. -/
theorem exists_passes_of_skipSpace (h : ∃ k, Passes k (skipSpace cs) rest) :
    ∃ k, Passes k cs rest := by
  obtain ⟨gap, hg, hcs⟩ := skipSpace_split cs
  rw [hcs]
  simpa only [passes_blank hg] using h

theorem inside_nextItem (h : nextItem first cs = .ok (some next)) :
    ∃ lead, Blank lead ∧ ∀ n stack,
      skipInside .square first (n + 1) stack cs = skipFrom n (.square :: stack) (lead ++ next) := by
  unfold nextItem at h
  split at h
  · cases h
  · cases h
  · rename_i r hr
    cases first with
    | true =>
      cases h
      refine ⟨[], blank_nil, fun n stack => ?_⟩
      simp only [skipInside, if_true, skipOpened, hr]
      rfl
    | false =>
      obtain ⟨gap, hg, hgap⟩ := skipSpace_split r
      simp only [Bool.false_eq_true, if_false] at h
      split at h
      · cases h
      · cases h
      · cases h
        refine ⟨gap, hg, fun n stack => ?_⟩
        simp only [skipInside, Bool.false_eq_true, if_false, skipClosing, hr, ← hgap]
        rfl
  · rename_i hnil hclose _
    cases first with
    | false => cases h
    | true =>
      cases h
      refine ⟨[], blank_nil, fun n stack => ?_⟩
      cases hr : skipSpace cs with
      | nil => exact absurd hr hnil
      | cons c r =>
        have hc : c ≠ ']' := by
          rintro rfl
          exact hclose r hr
        simp [skipInside, skipOpened, hr, Bracket.closing, hc]

theorem inside_nextKey (h : nextKey first cs = .ok (some next)) (hs : skipString next = .ok rest')
    (hc : scanColon rest' = .ok rest) (n : Nat) (stack : List Bracket) :
    skipInside .curly first (n + 1) stack cs = skipFrom n (.curly :: stack) rest := by
  have hq : isSpace '"' = false := rfl
  obtain ⟨before, gap, hb, hg, rfl⟩ := nextKey_eq_some h
  obtain ⟨lead, hl, hinside⟩ := inside_item (b := .curly) hb hg hq (by decide)
  have hkey : skipLead .curly (lead ++ '"' :: next) = .ok rest := by
    simp only [skipLead, skipKey, skipSpace_blank hl, skipSpace_cons hq, hs]
    exact hc
  rw [hinside, hkey]
  rfl

namespace Value

variable {depth : Nat} {v : Value} {items : List Value} {ms : List (String × Value)}

/-- What the three readers take in some number of steps can be passed over. -/
structure Passing (steps : Nat) : Prop where
  scan : ∀ {depth cs v rest}, scan steps depth cs = .ok (v, rest) → ∃ k, Passes k cs rest
  items : ∀ {depth acc cs v rest}, scanItems steps depth acc cs = .ok (v, rest) →
    ∃ k, PassesInside .square acc.isEmpty k cs rest
  members : ∀ {depth first ms cs v rest}, scanMembers steps depth first ms cs = .ok (v, rest) →
    ∃ k, PassesInside .curly first k cs rest

theorem passes_scan (ih : Passing steps) (h : scan (steps + 1) depth cs = .ok (v, rest)) :
    ∃ k, Passes k cs rest := by
  refine exists_passes_of_skipSpace ?_
  rw [scan] at h
  split at h <;> rename_i hcs <;> rw [hcs]
  · cases h
  · obtain ⟨r, hr, hv⟩ := exists_of_map h
    cases hv
    exact ⟨0, passes_of_token hr fun _ _ => rfl⟩
  · obtain ⟨r, hr, hv⟩ := exists_of_map h
    cases hv
    exact ⟨0, passes_of_token hr fun _ _ => rfl⟩
  · obtain ⟨r, hr, hv⟩ := exists_of_map h
    cases hv
    exact ⟨0, passes_of_token hr fun _ _ => rfl⟩
  · obtain ⟨p, hr, hv⟩ := exists_of_map h
    cases hv
    exact ⟨0, passes_of_token (skipNumber_of_scanNumber hr) fun _ _ => rfl⟩
  · obtain ⟨p, hr, hv⟩ := exists_of_map h
    cases hv
    exact ⟨0, passes_of_token (skipString_of_scanString hr) fun _ _ => rfl⟩
  · split at h
    · cases h
    · obtain ⟨k, hk⟩ := ih.items h
      exact ⟨k + 1, hk⟩
  · split at h
    · cases h
    · obtain ⟨k, hk⟩ := ih.members h
      exact ⟨k + 1, hk⟩
  · split at h
    · rename_i hd
      obtain ⟨p, hr, hv⟩ := exists_of_map h
      cases hv
      exact ⟨0, passes_of_token (skipNumber_of_scanNumber hr) fun _ _ => skipFrom_digit hd⟩
    · cases h

theorem passes_scanItems (ih : Passing steps)
    (h : scanItems (steps + 1) depth items cs = .ok (v, rest)) :
    ∃ k, PassesInside .square items.isEmpty k cs rest := by
  rw [scanItems] at h
  split at h
  · cases h
  · rename_i hnext
    obtain ⟨gap, tail, hg, rfl⟩ := nextItem_eq_none hnext
    rw [drop_closing hg rfl] at h
    cases h
    exact ⟨0, inside_closing hg⟩
  · rename_i next hnext
    split at h
    · cases h
    · rename_i hv
      obtain ⟨lead, hl, hinside⟩ := inside_nextItem hnext
      obtain ⟨k, hk⟩ := ih.scan hv
      obtain ⟨k', hk'⟩ := ih.items h
      exact ⟨_, passesInside_cons hinside ((passes_blank hl).mpr hk) hk'⟩

theorem passes_scanMembers (ih : Passing steps)
    (h : scanMembers (steps + 1) depth first ms cs = .ok (v, rest)) :
    ∃ k, PassesInside .curly first k cs rest := by
  rw [scanMembers] at h
  split at h
  · cases h
  · rename_i hnext
    obtain ⟨gap, tail, hg, rfl⟩ := nextKey_eq_none hnext
    rw [drop_closing hg rfl] at h
    cases h
    exact ⟨0, inside_closing hg⟩
  · rename_i next hnext
    split at h
    · cases h
    · rename_i hkey
      split at h
      · cases h
      · rename_i hcolon
        split at h
        · cases h
        · rename_i hv
          obtain ⟨k, hk⟩ := ih.scan hv
          obtain ⟨k', hk'⟩ := ih.members h
          have hinside := inside_nextKey hnext (skipString_of_scanString hkey) hcolon
          exact ⟨_, passesInside_cons hinside hk hk'⟩

/-- The three readers call each other with one step less. -/
theorem passing (steps : Nat) : Passing steps := by
  induction steps with
  | zero =>
    refine ⟨?_, ?_, ?_⟩
    · intro depth cs v rest h
      cases h
    · intro depth acc cs v rest h
      cases h
    · intro depth first ms cs v rest h
      cases h
  | succ steps ih => exact ⟨passes_scan ih, passes_scanItems ih, passes_scanMembers ih⟩

end Value

theorem exists_of_bind {β : Type} {e : Except Fault α} {f : α → Except Fault β} {b : β}
    (h : e >>= f = .ok b) : ∃ a, e = .ok a ∧ f a = .ok b := by
  cases e with
  | error _ => cases h
  | ok a => exact ⟨a, rfl, h⟩

/-- A reader that succeeds takes for its value just what is passed over as one. -/
def Decoder.Conforms (d : Decoder α) : Prop :=
  ∀ {b cs a rest}, d b cs = .ok (a, rest) → ∃ k, Passes k cs rest

namespace Decoder

variable {d : Decoder α}

/-- Nothing is left of a well-formed text, and nothing is taken of what follows it. -/
theorem Conforms.rest_eq (hd : d.Conforms) {b : Budget} {a : α} (hg : Blank gap) (ht : Formed text)
    (hr : Ends rest) (h : d b (gap ++ text ++ rest) = .ok (a, rest')) : rest' = rest := by
  obtain ⟨k, hk⟩ := hd h
  obtain ⟨k', -, hk'⟩ := formed_passesOver ht rest hr
  rw [List.append_assoc, passes_blank hg] at hk
  exact passes_unique hk hk'

theorem conforms_value : Value.decoder.Conforms := fun h => (Value.passing _).scan h

theorem conforms_string : Decoder.string.Conforms := by
  intro b cs a rest h
  refine exists_passes_of_skipSpace ?_
  unfold Decoder.string at h
  split at h
  · rename_i r hcs
    obtain ⟨p, hr, hv⟩ := exists_of_map h
    cases hv
    rw [hcs]
    exact ⟨0, passes_of_token (skipString_of_scanString hr) fun _ _ => rfl⟩
  · cases h

theorem conforms_word {bits : Nat} {wanted : String} : (word bits wanted).Conforms := by
  intro b cs n rest h
  refine exists_passes_of_skipSpace ?_
  unfold word at h
  extract_lets check at h
  -- the range check leaves the rest as it is
  have hcheck : ∀ p, check p = .ok (n, rest) → p.2 = rest := by
    rintro ⟨i | x, r⟩ hp
    · dsimp only [check] at hp
      split at hp <;> cases hp
      rfl
    · cases hp
  split at h
  · rename_i r hcs
    obtain ⟨p, hn, hp⟩ := exists_of_bind h
    obtain rfl := hcheck p hp
    rw [hcs]
    exact ⟨0, passes_of_token (skipNumber_of_scanNumber hn) fun _ _ => rfl⟩
  · rename_i c r _ hcs
    rw [hcs]
    split at h
    · rename_i hd
      obtain ⟨p, hn, hp⟩ := exists_of_bind h
      obtain rfl := hcheck p hp
      exact ⟨0, passes_of_token (skipNumber_of_scanNumber hn) fun _ _ => skipFrom_digit hd⟩
    · cases h
  · cases h

theorem conforms_word64 : word64.Conforms := by
  intro b cs a rest h
  obtain ⟨p, hr, hv⟩ := exists_of_map h
  cases hv
  exact conforms_word hr

theorem conforms_option (hd : d.Conforms) : (option d).Conforms := by
  intro b cs a rest h
  refine exists_passes_of_skipSpace ?_
  unfold option at h
  split at h
  · rename_i r hcs
    obtain ⟨r', hr, hv⟩ := exists_of_map h
    cases hv
    rw [hcs]
    exact ⟨0, passes_of_token hr fun _ _ => rfl⟩
  · obtain ⟨p, hr, hv⟩ := exists_of_map h
    cases hv
    exact hd hr

theorem conforms_field {name : String} {given : δ → Bool} {store : α → δ → δ} (hd : d.Conforms) :
    (Field.of name d given store).read.Conforms := by
  intro b cs a rest h
  obtain ⟨p, hr, hv⟩ := exists_of_map h
  cases hv
  exact hd hr

end Decoder

end HandlerHost.Json
