import HandlerHost.Proofs.Output.Conservation

/-!
How long a result is kept. The last complete frame is the result as long as no start sentinel
follows it. A start sentinel takes it back at once and returns it to the logs, whether or not the
capture that it opens is ever completed.
-/
namespace HandlerHost.Output

variable {l : Limits} {lines more : List Line} {limit : Nat}
  {texts pre body post front : List String}

/-- A complete frame stands among the texts, with a body that the limit admits. -/
def Frames (limit : Nat) (texts pre body post : List String) : Prop :=
  texts = pre ++ [resultStart] ++ body ++ [resultEnd] ++ post ∧ SentinelFree body ∧
    totalCost body ≤ limit

/-- A complete frame stands among the texts, and no other one after it. -/
def LastFrame (limit : Nat) (texts pre body post : List String) : Prop :=
  Frames limit texts pre body post ∧ ∀ pre' body' post', ¬ Frames limit post pre' body' post'

theorem accepts_iff_frames :
    Accepts limit texts body ↔ ∃ pre post, Frames limit texts pre body post ∧ resultStart ∉ post := by
  constructor
  · rintro ⟨pre, post, h, hf, hc, hs⟩
    exact ⟨pre, post, ⟨h, hf, hc⟩, hs⟩
  · rintro ⟨pre, post, ⟨h, hf, hc⟩, hs⟩
    exact ⟨pre, post, h, hf, hc, hs⟩

/-- A frame among the texts after a frame stands among all texts. -/
theorem Frames.later {pre' body' post' : List String} (h : Frames limit texts pre body post)
    (h' : Frames limit post pre' body' post') :
    Frames limit texts (pre ++ [resultStart] ++ body ++ [resultEnd] ++ pre') body' post' := by
  obtain ⟨rfl, -⟩ := h
  obtain ⟨rfl, hf, hc⟩ := h'
  exact ⟨by simp, hf, hc⟩

theorem Frames.length_lt (h : Frames limit texts pre body post) : post.length < texts.length := by
  obtain ⟨rfl, -⟩ := h
  simp
  omega

theorem Frames.sentinels_mem (h : Frames limit texts pre body post) :
    resultStart ∈ texts ∧ resultEnd ∈ texts := by
  obtain ⟨rfl, -⟩ := h
  simp

/-- Of the frames among some texts one is the last. -/
theorem exists_lastFrame (h : Frames limit texts pre body post) :
    ∃ pre body post, LastFrame limit texts pre body post := by
  induction hn : post.length using Nat.strongRecOn generalizing pre body post with
  | ind n ih =>
    by_cases hlater : ∃ pre' body' post', Frames limit post pre' body' post'
    · obtain ⟨pre', body', post', h'⟩ := hlater
      exact ih _ (hn ▸ h'.length_lt) (h.later h') rfl
    · exact ⟨pre, body, post, h, fun pre' body' post' h' => hlater ⟨pre', body', post', h'⟩⟩

/-- Where a start sentinel stands among the last texts, what is accepted stands there too. -/
theorem accepts_of_start_mem (hs : resultStart ∈ post) :
    Accepts limit (front ++ post) body ↔ Accepts limit post body := by
  obtain ⟨before, after, rfl⟩ := List.append_of_mem hs
  have h : Accepts limit (front ++ before ++ [resultStart] ++ after) body ↔
      Accepts limit (before ++ [resultStart] ++ after) body := accepts_after_start
  simpa using h

/-- Nothing is accepted when a start sentinel follows the last frame. -/
theorem LastFrame.not_accepts {other : List String} (h : LastFrame limit texts pre body post)
    (hs : resultStart ∈ post) : ¬ Accepts limit texts other := by
  obtain ⟨⟨rfl, -⟩, hlast⟩ := h
  rw [accepts_of_start_mem hs, accepts_iff_frames]
  rintro ⟨pre', post', hf, -⟩
  exact hlast pre' other post' hf

/-- Texts in two parts come from lines in two parts. -/
theorem exists_of_stdoutTexts_eq_append (h : stdoutTexts lines = front ++ resultStart :: post) :
    ∃ before after, lines = before ++ .stdout resultStart :: after ∧ stdoutTexts before = front := by
  obtain ⟨before, rest, rfl, rfl, hrest⟩ := List.filterMap_eq_append_iff.mp h
  obtain ⟨between, line, after, rfl, hnone, hline, -⟩ := List.filterMap_eq_cons_iff.mp hrest
  have hb : stdoutTexts between = [] := List.filterMap_eq_nil_iff.mpr hnone
  obtain rfl : line = .stdout resultStart := by
    cases line <;> simp_all [Line.stdout?]
  refine ⟨before ++ between, after, by simp, ?_⟩
  rw [stdoutTexts_append, hb, List.append_nil]
  rfl

namespace Frame

theorem shedAll_append {f : Frame} :
    f.shedAll l (lines ++ more) = f.shedAll l lines ++ (lines.foldl (push l) f).shedAll l more := by
  induction lines generalizing f with
  | nil => rfl
  | cons line lines ih => simp [shedAll, ih]

/-- A start sentinel sends a kept result to the logs in one piece. -/
theorem keptTexts_infix_logged :
    nonBlank (run l lines).keptTexts <:+: logged l (lines ++ .stdout resultStart :: more) := by
  have hshed : (run l lines).shed l (.stdout resultStart) =
      (run l lines).keptTexts ++ (run l lines).openTexts := rfl
  refine ⟨nonBlank (start.shedAll l lines), nonBlank ((run l lines).openTexts ++
    ((run l lines).push l (.stdout resultStart)).shedAll l more ++
      (run l (lines ++ .stdout resultStart :: more)).openTexts), ?_⟩
  rw [← nonBlank_append, ← nonBlank_append, logged, shedAll_append, shedAll, ← run, hshed]
  simp

theorem logged_length_le : (logged l lines).length ≤ lines.length := by
  have h : (logged l lines ++ nonBlank (run l lines).keptTexts).length =
      (nonBlank (lines.map Line.text)).length := logged_perm.length_eq
  have hf := List.length_filter_le (fun text => !Text.blank text) (lines.map Line.text)
  rw [List.length_append] at h
  rw [List.length_map] at hf
  simp only [nonBlank] at h
  omega

end Frame

/-- A cap that all lines fit in drops nothing. -/
theorem decode_logs_of_le (hc : lines.length ≤ l.logLines) :
    (decode l lines).logs = Frame.logged l lines := by
  rw [decode_logs, List.take_of_length_le (Nat.le_trans Frame.logged_length_le hc)]

/-- The last frame's text is the result when no start sentinel follows. -/
theorem LastFrame.result (h : LastFrame l.resultBytes (stdoutTexts lines) pre body post)
    (hs : resultStart ∉ post) : (decode l lines).result = some (String.intercalate "\n" body) :=
  result_eq_some_iff.mpr ⟨body, accepts_iff_frames.mpr ⟨pre, post, h.1, hs⟩, rfl⟩

theorem LastFrame.result_eq_none (h : LastFrame l.resultBytes (stdoutTexts lines) pre body post)
    (hs : resultStart ∈ post) : (decode l lines).result = none := by
  apply Option.eq_none_iff_forall_ne_some.mpr
  intro text ht
  obtain ⟨other, ha, -⟩ := result_eq_some_iff.mp ht
  exact h.not_accepts hs ha

/-- A frame that a start sentinel follows is found in the logs. -/
theorem Frames.infix_logged (h : Frames l.resultBytes (stdoutTexts lines) pre body post)
    (hs : resultStart ∈ post) :
    nonBlank ([resultStart] ++ body ++ [resultEnd]) <:+: Frame.logged l lines := by
  obtain ⟨htexts, hf, hc⟩ := h
  obtain ⟨between, after, rfl, hbetween⟩ := List.eq_append_cons_of_mem hs
  rw [← List.append_assoc] at htexts
  obtain ⟨before, rest, rfl, hbefore⟩ := exists_of_stdoutTexts_eq_append htexts
  have hkept : (Frame.run l before).kept = some body.toArray := by
    rw [Frame.reads_run.kept_iff, hbefore, List.toList_toArray]
    exact ⟨pre, between, rfl, hf, hc, hbetween⟩
  have hin : nonBlank (Frame.run l before).keptTexts <:+:
      Frame.logged l (before ++ .stdout resultStart :: rest) := Frame.keptTexts_infix_logged
  simpa [Frame.keptTexts, hkept] using hin

/-- If a complete frame stands on standard output, the last one is the result unless a start
sentinel follows it: nothing else that is printed afterwards takes it back. If a start sentinel
follows it, there is no result, and the frame is a piece of the logs under a cap that all lines fit
in. -/
theorem last_frame_kept
    (h : ∃ pre body post, Frames l.resultBytes (stdoutTexts lines) pre body post) :
    (∃ pre body post, LastFrame l.resultBytes (stdoutTexts lines) pre body post) ∧
    ∀ pre body post, LastFrame l.resultBytes (stdoutTexts lines) pre body post →
      (resultStart ∉ post → (decode l lines).result = some (String.intercalate "\n" body)) ∧
      (resultStart ∈ post → (decode l lines).result = none ∧
        (lines.length ≤ l.logLines →
          nonBlank ([resultStart] ++ body ++ [resultEnd]) <:+: (decode l lines).logs)) := by
  obtain ⟨pre, body, post, h⟩ := h
  refine ⟨exists_lastFrame h, fun pre body post hlast => ⟨hlast.result, fun hs => ?_⟩⟩
  refine ⟨hlast.result_eq_none hs, fun hc => ?_⟩
  rw [decode_logs_of_le hc]
  exact hlast.1.infix_logged hs

/-- An end sentinel, a blank line and a start sentinel on standard error leave the result where it
is; a start sentinel that stands alone does not. -/
theorem last_frame_kept_stray :
    let frame := [.stdout resultStart, .stdout "\x7b\x7d", .stdout resultEnd]
    let kept := frame ++ [.stderr resultStart, .stdout resultEnd, .stdout ""]
    let lost := frame ++ [.stdout "bye", .stdout resultStart]
    (decode ⟨8, 16⟩ kept).result = some "\x7b\x7d" ∧ (decode ⟨8, 16⟩ lost).result = none ∧
      [resultStart, "\x7b\x7d", resultEnd] <:+: (decode ⟨8, 16⟩ lost).logs := by
  intro frame kept lost
  have hfree : SentinelFree ["\x7b\x7d"] := ⟨by decide, by decide⟩
  have hkept : LastFrame 16 (stdoutTexts kept) [] ["\x7b\x7d"] [resultEnd, ""] :=
    ⟨⟨rfl, hfree, by decide⟩, fun _ _ _ h => absurd h.sentinels_mem.1 (by decide)⟩
  have hlost : LastFrame 16 (stdoutTexts lost) [] ["\x7b\x7d"] ["bye", resultStart] :=
    ⟨⟨rfl, hfree, by decide⟩, fun _ _ _ h => absurd h.sentinels_mem.2 (by decide)⟩
  have hk := (last_frame_kept (l := ⟨8, 16⟩) ⟨_, _, _, hkept.1⟩).2 _ _ _ hkept
  have hl := (last_frame_kept (l := ⟨8, 16⟩) ⟨_, _, _, hlost.1⟩).2 _ _ _ hlost
  obtain ⟨hnone, hlogs⟩ := hl.2 (by decide)
  exact ⟨hk.1 (by decide), hnone, hlogs (by decide)⟩

/-- A complete frame is no result once a start sentinel follows it, although no other frame is
ever completed. -/
theorem last_frame_lost :
    let lines := [.stdout resultStart, .stdout "a", .stdout resultEnd, .stdout resultStart]
    LastFrame 16 (stdoutTexts lines) [] ["a"] [resultStart] ∧
      (decode ⟨8, 16⟩ lines).result ≠ some (String.intercalate "\n" ["a"]) := by
  intro lines
  have hlast : LastFrame 16 (stdoutTexts lines) [] ["a"] [resultStart] :=
    ⟨⟨rfl, ⟨by decide, by decide⟩, by decide⟩,
      fun _ _ _ h => absurd h.sentinels_mem.2 (by decide)⟩
  refine ⟨hlast, ?_⟩
  rw [hlast.result_eq_none (List.mem_singleton_self _)]
  exact nofun

end HandlerHost.Output
