import HandlerHost.Proofs.Output.ResultSize

/-!
What holds of a frame between any two lines. It holds one body at most, in an open capture or as the
kept result; the body has no sentinel in it and costs no more than the limit. The logs are within
the cap, and have reached it if a line was dropped. No line takes back what was logged before.
-/
namespace HandlerHost.Output

variable {l : Limits} {f g later : Frame} {line : Line} {lines : List Line} {limit : Nat}
  {text : String} {texts body : List String}

/-- A body that may be held. -/
structure Holdable (limit : Nat) (body : List String) : Prop where
  free : SentinelFree body
  cost_le : totalCost body ≤ limit

theorem textSize_le_totalCost : textSize body ≤ totalCost body := by
  by_cases hb : body = []
  · subst hb
    exact Nat.zero_le _
  · rw [totalCost_of_ne_nil hb]
    exact Nat.le_succ _

theorem holdable_nil : Holdable limit [] := ⟨sentinelFree_nil, Nat.zero_le _⟩

theorem Holdable.concat (h : Holdable limit body) (hs : text ≠ resultStart) (he : text ≠ resultEnd)
    (hc : totalCost body + cost text ≤ limit) : Holdable limit (body ++ [text]) where
  free := sentinelFree_concat.mpr ⟨h.free, hs, he⟩
  cost_le := by rwa [totalCost_concat]

theorem Holdable.textSize_le (h : Holdable limit body) : textSize body ≤ limit :=
  Nat.le_trans textSize_le_totalCost h.cost_le

namespace Frame

/-- A frame holds one body at most, and that may be held. What a capture has spent is its cost. -/
structure Contained (limit : Nat) (f : Frame) : Prop where
  apart : f.isCapturing = true → f.kept = none
  captured : ∀ body spent, f.mode = .capturing body spent →
    spent = totalCost body.toList ∧ Holdable limit body.toList
  kept : ∀ body, f.kept = some body → Holdable limit body.toList

/-- The logs are within the cap, without blank lines, and full if a line was dropped. -/
structure Trimmed (l : Limits) (f : Frame) : Prop where
  size_le : f.logs.size ≤ l.logLines
  full : 0 < f.dropped → f.logs.size = l.logLines
  solid : ∀ text ∈ f.logs, Text.blank text = false

/-- Of what the first frame has logged and found out the second takes nothing back. -/
structure Grows (f g : Frame) : Prop where
  logs : f.logs.toList <+: g.logs.toList
  dropped : f.dropped ≤ g.dropped
  oversized : f.oversized = true → g.oversized = true

theorem contained_start : Contained limit start where
  apart := fun _ => rfl
  captured := by
    intro body spent hm
    cases hm
  kept := by
    intro body hk
    cases hk

/-- A start sentinel leaves an empty capture and nothing else. -/
theorem contained_restart :
    Contained limit { f with mode := .capturing #[] 0, kept := none } where
  apart := fun _ => rfl
  captured := by
    rintro body spent ⟨⟩
    exact ⟨rfl, holdable_nil⟩
  kept := by
    intro body hk
    cases hk

/-- An end sentinel makes the open capture the result, and so it is held still. -/
theorem contained_accept {captured : Array String} {spent : Nat} (h : Contained limit f)
    (hm : f.mode = .capturing captured spent) :
    Contained limit { f with mode := .logging, kept := some captured } where
  apart := by
    intro hc
    cases hc
  captured := by
    intro body spent hm
    cases hm
  kept := by
    rintro body ⟨⟩
    exact (h.captured captured spent hm).2

/-- A capture that is given up leaves nothing to be held. -/
theorem contained_overflow (h : Contained limit f) :
    Contained limit { f with mode := .logging, oversized := true } where
  apart := by
    intro hc
    cases hc
  captured := by
    intro body spent hm
    cases hm
  kept := h.kept

/-- A capture goes on as long as the next line is no sentinel and the limit allows for it. -/
theorem contained_extend {captured : Array String} {spent : Nat} (h : Contained limit f)
    (hm : f.mode = .capturing captured spent) (hs : text ≠ resultStart) (he : text ≠ resultEnd)
    (hc : spent + cost text ≤ limit) :
    Contained limit { f with mode := .capturing (captured.push text) (spent + cost text) } where
  apart := by
    intro _
    exact h.apart (by rw [isCapturing, hm])
  captured := by
    rintro body spent' ⟨⟩
    obtain ⟨rfl, hb⟩ := h.captured captured spent hm
    rw [Array.toList_push]
    exact ⟨totalCost_concat.symm, hb.concat hs he hc⟩
  kept := h.kept

theorem contained_turn (h : Contained l.resultBytes f) :
    Contained l.resultBytes (f.turn l line) := by
  cases line with
  | stderr text => exact h
  | stdout text =>
    simp only [turn]
    split
    · exact contained_restart
    · rename_i hs
      cases hm : f.mode with
      | logging => exact h
      | capturing captured spent =>
        dsimp only
        split
        · exact contained_accept h hm
        · rename_i he
          split
          · exact contained_overflow h
          · rename_i hc
            exact contained_extend h hm hs he (Nat.le_of_not_lt hc)

/-- What is logged has no part in what is held. -/
theorem contained_logAll (h : Contained limit f) : Contained limit (f.logAll l texts) := by
  obtain ⟨logs, dropped, he⟩ := logAll_frame l f texts
  rw [he]
  exact ⟨h.apart, h.captured, h.kept⟩

theorem trimmed_start : Trimmed l start where
  size_le := Nat.zero_le _
  full := fun hd => absurd hd (Nat.lt_irrefl 0)
  solid := by
    intro text ht
    exact absurd ht (Array.not_mem_empty text)

theorem trimmed_log (text : String) (h : Trimmed l f) : Trimmed l (f.log l text) := by
  unfold log
  split
  · exact h
  · rename_i hb
    split
    · rename_i hc
      exact ⟨h.size_le, fun _ => Nat.le_antisymm h.size_le hc, h.solid⟩
    · rename_i hc
      have hlt : f.logs.size < l.logLines := Nat.lt_of_not_le hc
      refine ⟨by rwa [Array.size_push], fun hd => ?_, fun other ho => ?_⟩
      -- Nothing has been dropped so far, or there would be no room.
      · exact absurd (h.full hd) (Nat.ne_of_lt hlt)
      · rcases Array.mem_push.mp ho with ho | rfl
        · exact h.solid other ho
        · exact Bool.eq_false_iff.mpr hb

theorem trimmed_logAll (h : Trimmed l f) : Trimmed l (f.logAll l texts) := by
  induction texts generalizing f with
  | nil => exact h
  | cons text texts ih => exact ih (trimmed_log text h)

/-- Nothing but the logs and the number of dropped lines counts. -/
theorem Trimmed.of_logs (h : Trimmed l f) (hl : g.logs = f.logs) (hd : g.dropped = f.dropped) :
    Trimmed l g where
  size_le := by
    rw [hl]
    exact h.size_le
  full := by
    rw [hl, hd]
    exact h.full
  solid := by
    rw [hl]
    exact h.solid

theorem trimmed_turn (h : Trimmed l f) : Trimmed l (f.turn l line) :=
  h.of_logs turn_logs.1 turn_logs.2

theorem trimmed_logOpen (h : Trimmed l f) : Trimmed l (f.logOpen l) := by
  rw [logOpen_eq]
  exact trimmed_logAll (h.of_logs rfl rfl)

/-- What holds of a frame between two lines: every line leaves a sound frame sound. -/
structure Sound (l : Limits) (f : Frame) : Prop where
  contained : Contained l.resultBytes f
  trimmed : Trimmed l f

theorem sound_start : Sound l start := ⟨contained_start, trimmed_start⟩

theorem sound_push (h : Sound l f) : Sound l (f.push l line) := by
  rw [push_eq]
  exact ⟨contained_logAll (contained_turn h.contained), trimmed_logAll (trimmed_turn h.trimmed)⟩

theorem sound_pushes (h : Sound l f) : Sound l (lines.foldl (push l) f) := by
  induction lines generalizing f with
  | nil => exact h
  | cons line lines ih => exact ih (sound_push h)

theorem sound_run : Sound l (run l lines) := sound_pushes sound_start

theorem Grows.refl (f : Frame) : Grows f f := ⟨List.prefix_refl _, Nat.le_refl _, id⟩

theorem Grows.trans (h : Grows f g) (h' : Grows g later) : Grows f later :=
  ⟨h.logs.trans h'.logs, Nat.le_trans h.dropped h'.dropped, h'.oversized ∘ h.oversized⟩

theorem grows_log (text : String) : Grows f (f.log l text) := by
  unfold log
  split
  · exact .refl f
  · split
    · exact ⟨List.prefix_refl _, Nat.le_succ _, id⟩
    · refine ⟨?_, Nat.le_refl _, id⟩
      rw [Array.toList_push]
      exact List.prefix_append _ _

theorem grows_logAll : Grows f (f.logAll l texts) := by
  induction texts generalizing f with
  | nil => exact .refl f
  | cons text texts ih => exact (grows_log text).trans ih

theorem grows_turn : Grows f (f.turn l line) := by
  obtain ⟨hl, hd⟩ : (f.turn l line).logs = f.logs ∧ (f.turn l line).dropped = f.dropped := turn_logs
  refine ⟨hl ▸ List.prefix_refl _, Nat.le_of_eq hd.symm, fun ho => ?_⟩
  unfold turn
  split
  · exact ho
  · split
    · exact ho
    · split
      · exact ho
      · split
        · exact ho
        · split
          · rfl
          · exact ho

theorem grows_push : Grows f (f.push l line) := by
  rw [push_eq]
  exact grows_turn.trans grows_logAll

theorem grows_pushes : Grows f (lines.foldl (push l) f) := by
  induction lines generalizing f with
  | nil => exact .refl f
  | cons line lines ih => exact grows_push.trans ih

/-- What is held besides the logs is one body with its sentinels at most: a capture and a kept
result exclude each other. -/
theorem cost_held_le (h : Contained limit f) :
    totalCost f.held ≤ limit + totalCost [resultStart, resultEnd] := by
  have hopen : totalCost [resultStart] ≤ totalCost [resultStart, resultEnd] := by decide
  cases hm : f.mode with
  | logging =>
    cases hk : f.kept with
    | none => simp [held, keptTexts, openTexts, hm, hk]
    | some body =>
      have hb := (h.kept body hk).cost_le
      have he : totalCost f.held =
          totalCost body.toList + totalCost [resultStart, resultEnd] := by
        simp [held, keptTexts, openTexts, hm, hk, totalCost]
        omega
      omega
  | capturing body spent =>
    have hb := (h.captured body spent hm).2.cost_le
    have hk := h.apart (by rw [isCapturing, hm])
    have he : totalCost f.held = totalCost body.toList + totalCost [resultStart] := by
      simp [held, keptTexts, openTexts, hm, hk, totalCost]
      omega
    omega

end Frame

/-- Whatever lines have come, the frame is sound. So it never holds a kept result and an open
capture together, what a capture has spent is its cost and within the limit, the text of a kept body
is within it too, no sentinel is held, and the logs are within the cap, free of blank lines, and
full if a line was dropped. Further lines only add to the logs, never lower the count of dropped
lines, and never clear the mark for an oversized capture. What is known at the end of the output is
within the same bounds. -/
theorem frame_sound (l : Limits) (lines : List Line) :
    let f := Frame.run l lines
    f.Sound l ∧
    (∀ body, f.kept = some body → textSize body.toList ≤ l.resultBytes) ∧
    totalCost f.held ≤ l.resultBytes + totalCost [resultStart, resultEnd] ∧
    (∀ line, f.Grows (f.push l line)) ∧
    (∀ more, f.Grows (Frame.run l (lines ++ more))) ∧
    (decode l lines).logs.length ≤ l.logLines ∧
    ∀ text, (decode l lines).result = some text → text.utf8ByteSize ≤ l.resultBytes := by
  intro f
  have hf : f.Sound l := Frame.sound_run
  have htext : ∀ body, f.kept = some body → textSize body.toList ≤ l.resultBytes :=
    fun body hk => (hf.contained.kept body hk).textSize_le
  refine ⟨hf, htext, Frame.cost_held_le hf.contained, fun line => Frame.grows_push, ?_, ?_, ?_⟩
  · intro more
    rw [Frame.run, List.foldl_append]
    exact Frame.grows_pushes
  · exact (Frame.trimmed_logOpen hf.trimmed).size_le
  · intro text ht
    rw [decode, Frame.finish_result, Option.map_eq_some_iff] at ht
    obtain ⟨body, hk, rfl⟩ := ht
    exact htext body hk

/-- A result is kept, one line is logged and one is dropped; then a start sentinel takes the result
back, and the log has no room for it. -/
theorem frame_sound_full :
    let lines := [.stdout resultStart, .stdout "ab", .stdout "cd", .stdout resultEnd, .stderr "a",
      .stderr "b"]
    let f := Frame.run ⟨1, 6⟩ lines
    f.kept = some #["ab", "cd"] ∧ textSize ["ab", "cd"] ≤ 6 ∧ 0 < f.dropped ∧ f.logs.size = 1 ∧
      f.logs.toList <+: (f.push ⟨1, 6⟩ (.stdout resultStart)).logs.toList := by
  intro lines f
  have hkept : f.kept = some #["ab", "cd"] := by decide
  have hdropped : 0 < f.dropped := by decide
  obtain ⟨hf, htext, -, hgrows, -⟩ := frame_sound ⟨1, 6⟩ lines
  exact ⟨hkept, htext _ hkept, hdropped, hf.trimmed.full hdropped, (hgrows _).logs⟩

end HandlerHost.Output
