import HandlerHost.Text.Blank
import Mathlib.Data.List.TakeWhile

/-!
Trimming. What is left of a text stands between two runs of blanks and has none at its own ends,
and there is only one such middle.
-/
namespace HandlerHost.Text

variable {cs before mid after : List Char}

/-- Nothing but white space. -/
def Blanks (cs : List Char) : Prop := ∀ c ∈ cs, isBlank c = true

/-- No white space stands at either end. -/
structure Tight (cs : List Char) : Prop where
  head : ∀ c, cs.head? = some c → isBlank c = false
  last : ∀ c, cs.getLast? = some c → isBlank c = false

/-- A text without white space has none at its ends. -/
theorem tight_of_forall (h : ∀ c ∈ cs, isBlank c = false) : Tight cs :=
  ⟨fun _ hc => h _ (List.mem_of_head? hc), fun _ hc => h _ (List.mem_of_getLast? hc)⟩

theorem dropWhile_blanks (hb : Blanks before) (hm : ∀ c, mid.head? = some c → isBlank c = false)
    (hn : mid ≠ []) : (before ++ (mid ++ after)).dropWhile isBlank = mid ++ after := by
  rw [List.dropWhile_append_of_pos hb]
  cases mid with
  | nil => exact absurd rfl hn
  | cons c mid => simp [hm c rfl]

/-- The middle between blanks is what is left. -/
theorem trimChars_append (hb : Blanks before) (hm : Tight mid) (ha : Blanks after) :
    trimChars (before ++ (mid ++ after)) = mid := by
  by_cases hn : mid = []
  · subst hn
    have hall : Blanks (before ++ after) := fun c hc =>
      (List.mem_append.mp hc).elim (hb c) (ha c)
    simp [trimChars, List.dropWhile_eq_nil_iff.mpr hall]
  · have hr : Blanks after.reverse := fun c hc => ha c (List.mem_reverse.mp hc)
    have hlast : ∀ c, mid.reverse.head? = some c → isBlank c = false := by
      simpa using hm.last
    have hback : (after.reverse ++ (mid.reverse ++ [])).dropWhile isBlank = mid.reverse ++ [] :=
      dropWhile_blanks hr hlast (by simpa using hn)
    rw [List.append_nil] at hback
    rw [trimChars, dropWhile_blanks hb hm.head hn, List.reverse_append, hback,
      List.reverse_reverse]

/-- The blanks at the end, taken off what has none in front. -/
theorem exists_blanks_after (cs : List Char) :
    ∃ after, Blanks after ∧ cs.dropWhile isBlank = trimChars cs ++ after := by
  have hs : (cs.dropWhile isBlank).reverse.takeWhile isBlank ++
      (cs.dropWhile isBlank).reverse.dropWhile isBlank = (cs.dropWhile isBlank).reverse :=
    List.takeWhile_append_dropWhile
  refine ⟨((cs.dropWhile isBlank).reverse.takeWhile isBlank).reverse, fun c hc => ?_, ?_⟩
  · exact List.mem_takeWhile_imp (List.mem_reverse.mp hc)
  · rw [trimChars, ← List.reverse_append, hs, List.reverse_reverse]

theorem tight_trimChars (cs : List Char) : Tight (trimChars cs) := by
  obtain ⟨after, -, ha⟩ := exists_blanks_after cs
  refine ⟨fun c hc => ?_, fun c hc => ?_⟩
  · have hh := List.head?_dropWhile_not isBlank cs
    rw [ha, List.head?_append, hc] at hh
    simpa using hh
  · have hh := List.head?_dropWhile_not isBlank (cs.dropWhile isBlank).reverse
    rw [trimChars, List.getLast?_reverse] at hc
    rw [hc] at hh
    simpa using hh

theorem trimChars_eq_iff : trimChars cs = mid ↔
    Tight mid ∧ ∃ before after, Blanks before ∧ Blanks after ∧ cs = before ++ (mid ++ after) := by
  constructor
  · rintro rfl
    obtain ⟨after, hb, ha⟩ := exists_blanks_after cs
    refine ⟨tight_trimChars cs, cs.takeWhile isBlank, after,
      fun c hc => List.mem_takeWhile_imp hc, hb, ?_⟩
    rw [← ha, List.takeWhile_append_dropWhile]
  · rintro ⟨hm, before, after, hb, ha, rfl⟩
    exact trimChars_append hb hm ha

theorem toLower_of_not_upper {c : Char} (h : ¬ (65 ≤ c.toNat ∧ c.toNat ≤ 90)) : c.toLower = c := by
  unfold Char.toLower
  exact dif_neg h

/-- White space has no letters in it. -/
theorem toLower_of_isBlank {c : Char} (h : isBlank c = true) : c.toLower = c := by
  apply toLower_of_not_upper
  simp only [isBlank, Bool.or_eq_true, Bool.and_eq_true, decide_eq_true_eq, beq_iff_eq] at h
  omega

end HandlerHost.Text
