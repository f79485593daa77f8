import HandlerHost.Proofs.Output.Retention

/-!
How long a result may be. The limit is on the cost of a body, in which every line counts with its
newline; the text has one newline less. So a body of one line or more fits exactly if its text is
shorter than the limit.
-/
namespace HandlerHost.Output

variable {l : Limits} {lines : List Line} {limit : Nat} {texts body other : List String}

/-- The bytes of the text that a body makes. -/
def textSize (body : List String) : Nat := (String.intercalate "\n" body).utf8ByteSize

/-- Texts without a sentinel that come after a start sentinel, up to the next sentinel or less. -/
def AfterStart (texts body : List String) : Prop :=
  ∃ pre post, texts = pre ++ [resultStart] ++ body ++ post ∧ SentinelFree body

/-- A complete body that no other start sentinel follows. -/
def Concludes (texts body : List String) : Prop :=
  ∃ pre post, texts = pre ++ [resultStart] ++ body ++ [resultEnd] ++ post ∧ SentinelFree body ∧
    resultStart ∉ post

theorem totalCost_of_ne_nil (hb : body ≠ []) : totalCost body = textSize body + 1 := by
  induction body with
  | nil => exact absurd rfl hb
  | cons text body ih =>
    have hcost : totalCost (text :: body) = cost text + totalCost body := by simp [totalCost]
    cases body with
    | nil => simp [hcost, textSize, cost]
    | cons next body =>
      have hnewline : "\n".utf8ByteSize = 1 := rfl
      have hsize : textSize (text :: next :: body) =
          text.utf8ByteSize + 1 + textSize (next :: body) := by
        rw [textSize, String.intercalate_cons_cons, String.utf8ByteSize_append,
          String.utf8ByteSize_append, hnewline, textSize]
      rw [hcost, ih (List.cons_ne_nil _ _), hsize, cost]
      omega

/-- A body costs too much as soon as its text reaches the limit. -/
theorem lt_totalCost_iff : limit < totalCost body ↔ body ≠ [] ∧ limit ≤ textSize body := by
  by_cases hb : body = []
  · subst hb
    simp
  · rw [totalCost_of_ne_nil hb]
    simp only [hb, ne_eq, not_false_eq_true, true_and]
    omega

theorem totalCost_le_iff : totalCost body ≤ limit ↔ body = [] ∨ textSize body < limit := by
  rw [← Nat.not_lt, lt_totalCost_iff, not_and_or, not_not, Nat.not_le]

/-- A longer body makes no shorter text. -/
theorem textSize_le_of_prefix (h : other <+: body) : textSize other ≤ textSize body := by
  obtain ⟨rest, rfl⟩ := h
  by_cases ho : other = []
  · subst ho
    exact Nat.zero_le _
  · have hcost : totalCost (other ++ rest) = totalCost other + totalCost rest := by
      simp [totalCost]
    have hother := totalCost_of_ne_nil ho
    have hne : other ++ rest ≠ [] := by simp [ho]
    have hboth := totalCost_of_ne_nil hne
    omega

theorem overflows_iff :
    Overflows limit texts ↔ ∃ body, AfterStart texts body ∧ limit < totalCost body := by
  constructor
  · rintro ⟨pre, body, post, h, hf, hc⟩
    exact ⟨body, ⟨pre, post, h, hf⟩, hc⟩
  · rintro ⟨body, ⟨pre, post, h, hf⟩, hc⟩
    exact ⟨pre, body, post, h, hf, hc⟩

theorem accepts_iff : Accepts limit texts body ↔ Concludes texts body ∧ totalCost body ≤ limit := by
  constructor
  · rintro ⟨pre, post, h, hf, hc, hs⟩
    exact ⟨⟨pre, post, h, hf, hs⟩, hc⟩
  · rintro ⟨⟨pre, post, h, hf, hs⟩, hc⟩
    exact ⟨pre, post, h, hf, hc, hs⟩

/-- Some texts end with one body at most: a frame keeps one at most. -/
theorem Concludes.unique (h : Concludes texts body) (h' : Concludes texts other) :
    body = other := by
  let limits : Limits := ⟨0, max (totalCost body) (totalCost other)⟩
  have hkept : ∀ {kept}, Concludes texts kept → totalCost kept ≤ limits.resultBytes →
      (Frame.run limits (texts.map .stdout)).kept = some kept.toArray := by
    intro kept hk hc
    have htexts : stdoutTexts (texts.map .stdout) = texts := by
      rw [stdoutTexts, List.filterMap_map]
      exact List.filterMap_some
    rw [Frame.reads_run.kept_iff, htexts, List.toList_toArray]
    exact accepts_iff.mpr ⟨hk, hc⟩
  have hb := hkept h (Nat.le_max_left _ _)
  rw [hkept h' (Nat.le_max_right _ _)] at hb
  simpa using hb.symm

/-- The last complete body is the result if it costs no more than the limit. -/
theorem Concludes.result (h : Concludes (stdoutTexts lines) body) :
    (decode l lines).result =
      if totalCost body ≤ l.resultBytes then some (String.intercalate "\n" body) else none := by
  split
  · rename_i hc
    exact result_eq_some_iff.mpr ⟨body, accepts_iff.mpr ⟨h, hc⟩, rfl⟩
  · rename_i hc
    apply Option.eq_none_iff_forall_ne_some.mpr
    intro text ht
    obtain ⟨other, ha, -⟩ := result_eq_some_iff.mp ht
    obtain ⟨ho, hcost⟩ := accepts_iff.mp ha
    exact hc (h.unique ho ▸ hcost)

/-- What comes after the start sentinel of a frame that stands alone. -/
theorem prefix_of_afterStart (hf : SentinelFree body)
    (h : AfterStart ([resultStart] ++ body ++ [resultEnd]) other) : other <+: body := by
  obtain ⟨pre, post, he, ho⟩ := h
  cases pre with
  | nil =>
    have he : body ++ [resultEnd] = other ++ post := by simpa using he
    rcases concat_eq_split he with ⟨-, rfl⟩ | ⟨rest, -, rfl⟩
    · exact absurd (by simp) ho.2
    · exact List.prefix_append _ _
  | cons text pre =>
    have he : body ++ [resultEnd] = pre ++ [resultStart] ++ other ++ post := by
      simpa using (List.cons.inj (by simpa using he)).2
    have hs : resultStart ∈ body ++ [resultEnd] := by simp [he]
    rcases List.mem_append.mp hs with hs | hs
    · exact absurd hs hf.1
    · exact absurd (List.mem_singleton.mp hs) resultStart_ne_resultEnd

/-- Output counts as oversized exactly if some lines after a start sentinel make a text that reaches
the limit, and the last complete body is the result exactly if its text does not reach it, or if it
has no lines. So when no text after a start sentinel is longer than the limit, all is well unless
one is just as long. -/
theorem oversized_when_reached (l : Limits) (lines : List Line) :
    let texts := stdoutTexts lines
    ((decode l lines).oversized = true ↔
      ∃ body, AfterStart texts body ∧ body ≠ [] ∧ l.resultBytes ≤ textSize body) ∧
    (∀ body, Concludes texts body → (decode l lines).result =
      if body = [] ∨ textSize body < l.resultBytes then some (String.intercalate "\n" body)
      else none) ∧
    ((∀ body, AfterStart texts body → textSize body ≤ l.resultBytes) →
      ((decode l lines).oversized = true ↔
        ∃ body, AfterStart texts body ∧ body ≠ [] ∧ textSize body = l.resultBytes) ∧
      ∀ body, Concludes texts body → body = [] ∨ textSize body ≠ l.resultBytes →
        (decode l lines).result = some (String.intercalate "\n" body)) := by
  intro texts
  have hover : (decode l lines).oversized = true ↔
      ∃ body, AfterStart texts body ∧ body ≠ [] ∧ l.resultBytes ≤ textSize body := by
    simp only [oversized_iff, overflows_iff, lt_totalCost_iff, texts]
  have hresult : ∀ body, Concludes texts body → (decode l lines).result =
      if body = [] ∨ textSize body < l.resultBytes then some (String.intercalate "\n" body)
      else none := by
    intro body hb
    simp only [hb.result, totalCost_le_iff]
  refine ⟨hover, hresult, fun hfits => ⟨?_, ?_⟩⟩
  · rw [hover]
    constructor
    · rintro ⟨body, ha, hne, hle⟩
      exact ⟨body, ha, hne, Nat.le_antisymm (hfits body ha) hle⟩
    · rintro ⟨body, ha, hne, he⟩
      exact ⟨body, ha, hne, Nat.le_of_eq he.symm⟩
  · intro body hb hne
    have hafter : AfterStart texts body := by
      obtain ⟨pre, post, h, hf, -⟩ := hb
      exact ⟨pre, [resultEnd] ++ post, by simpa using h, hf⟩
    have hle := hfits body hafter
    rw [hresult body hb, if_pos]
    exact hne.imp_right fun hne => Nat.lt_of_le_of_ne hle hne

/-- A result of two lines is one byte below the limit. -/
theorem oversized_when_reached_below :
    let lines := [.stdout resultStart, .stdout "ab", .stderr "warning", .stdout "cd",
      .stdout resultEnd]
    (∀ body, AfterStart (stdoutTexts lines) body → textSize body ≤ 6) ∧
      (decode ⟨8, 6⟩ lines).oversized = false ∧ (decode ⟨8, 6⟩ lines).result = some "ab\ncd" := by
  intro lines
  have hfree : SentinelFree ["ab", "cd"] := ⟨by decide, by decide⟩
  have hsize : textSize ["ab", "cd"] = 5 := by decide
  have hle : ∀ body, AfterStart (stdoutTexts lines) body → textSize body ≤ 5 :=
    fun body ha => hsize ▸ textSize_le_of_prefix (prefix_of_afterStart hfree ha)
  have hfits : ∀ body, AfterStart (stdoutTexts lines) body → textSize body ≤ 6 :=
    fun body ha => Nat.le_succ_of_le (hle body ha)
  obtain ⟨hover, hresult⟩ := (oversized_when_reached ⟨8, 6⟩ lines).2.2 hfits
  refine ⟨hfits, Bool.eq_false_iff.mpr fun ho => ?_, ?_⟩
  · obtain ⟨body, ha, -, he⟩ := hover.mp ho
    exact absurd (he ▸ hle body ha) (by decide)
  · exact hresult ["ab", "cd"] ⟨[], [], rfl, hfree, by decide⟩ (.inr (by decide))

/-- A text as long as the limit costs one byte more than that. -/
theorem oversized_exact_fit :
    let lines := [.stdout resultStart, .stdout "ab", .stdout "cd", .stdout resultEnd]
    (∀ body, AfterStart (stdoutTexts lines) body → textSize body ≤ 5) ∧
      Concludes (stdoutTexts lines) ["ab", "cd"] ∧ textSize ["ab", "cd"] = 5 ∧
      (decode ⟨8, 5⟩ lines).oversized = true ∧ (decode ⟨8, 5⟩ lines).result = none := by
  intro lines
  have hfree : SentinelFree ["ab", "cd"] := ⟨by decide, by decide⟩
  have hsize : textSize ["ab", "cd"] = 5 := by decide
  refine ⟨fun body ha => ?_, ⟨[], [], rfl, hfree, by decide⟩, hsize, by decide, by decide⟩
  exact hsize ▸ textSize_le_of_prefix (prefix_of_afterStart hfree ha)

end HandlerHost.Output
