import HandlerHost.Proofs.Output.Turn

/-!
What a frame knows is what the grammar says of the texts on standard output: the capture it has
open, the result it keeps, and whether a capture cost too much.
-/
namespace HandlerHost.Output.Frame

variable {l : Limits} {f : Frame} {line : Line} {lines : List Line} {text : String}
  {limit : Nat} {texts body : List String}

/-- The frame agrees with the grammar on the texts so far. -/
structure Reads (limit : Nat) (texts : List String) (f : Frame) : Prop where
  capturing_iff : ∀ lines spent, f.mode = .capturing lines spent ↔
    Captures limit texts lines.toList ∧ spent = totalCost lines.toList
  kept_iff : ∀ lines, f.kept = some lines ↔ Accepts limit texts lines.toList
  oversized_iff : f.oversized = true ↔ Overflows limit texts

theorem reads_start : Reads limit [] start where
  capturing_iff := by simp [start, captures_nil]
  kept_iff := by simp [start, accepts_nil]
  oversized_iff := by simp [start, overflows_nil]

theorem reads_logAll (h : Reads limit texts f) {shed : List String} :
    Reads limit texts (f.logAll l shed) where
  capturing_iff := by simpa using h.capturing_iff
  kept_iff := by simpa using h.kept_iff
  oversized_iff := by simpa using h.oversized_iff

/-- The grammar leaves no choice to the mode. -/
theorem mode_of_captures (h : Reads limit texts f) (hc : Captures limit texts body) :
    f.mode = .capturing body.toArray (totalCost body) := by
  rw [h.capturing_iff, List.toList_toArray]
  exact ⟨hc, rfl⟩

theorem not_captures_of_logging (h : Reads limit texts f) (hm : f.mode = .logging) :
    ¬ Captures limit texts body := by
  intro hc
  have ho := mode_of_captures h hc
  rw [hm] at ho
  contradiction

theorem captures_eq_of_capturing {captured : Array String} {spent : Nat} (h : Reads limit texts f)
    (hm : f.mode = .capturing captured spent) (hc : Captures limit texts body) :
    body = captured.toList := by
  have ho := mode_of_captures h hc
  rw [hm] at ho
  injection ho with hl
  rw [hl]

/-- A start sentinel empties the capture and takes back the result. -/
theorem reads_restart (h : Reads limit texts f) :
    Reads limit (texts ++ [resultStart]) { f with mode := .capturing #[] 0, kept := none } where
  capturing_iff := by
    intro lines spent
    rw [captures_start]
    constructor
    · rintro ⟨⟩
      simp
    · rintro ⟨hl, hc⟩
      rw [hl] at hc
      simp [hc, Array.toList_eq_nil_iff.mp hl]
  kept_iff := by simp [not_accepts_start]
  oversized_iff := by simp [overflows_concat, h.oversized_iff]

/-- Outside of a capture no text but a start sentinel counts. -/
theorem reads_idle (h : Reads limit texts f) (hm : f.mode = .logging) (hs : text ≠ resultStart) :
    Reads limit (texts ++ [text]) f where
  capturing_iff := by
    intro lines spent
    simp [captures_concat, hm, hs, not_captures_of_logging h hm]
  kept_iff := by
    intro lines
    simp [accepts_concat, hs, not_captures_of_logging h hm, h.kept_iff]
  oversized_iff := by
    simp [overflows_concat, not_captures_of_logging h hm, h.oversized_iff]

/-- An end sentinel makes the open capture the result. -/
theorem reads_accept {captured : Array String} {spent : Nat} (h : Reads limit texts f)
    (hm : f.mode = .capturing captured spent) :
    Reads limit (texts ++ [resultEnd]) { f with mode := .logging, kept := some captured } where
  capturing_iff := by
    intro lines spent
    simp [captures_concat, resultStart_ne_resultEnd.symm]
  kept_iff := by
    have hc := (h.capturing_iff captured spent).mp hm |>.1
    intro lines
    simp only [accepts_concat, not_accepts_of_captures hc, and_false, or_false, true_and,
      Option.some.injEq]
    constructor
    · rintro rfl
      exact hc
    · intro hl
      exact (Array.toList_inj.mp (captures_eq_of_capturing h hm hl)).symm
  oversized_iff := by
    simp [overflows_concat, h.oversized_iff]

/-- A text that costs too much ends the capture without a result. -/
theorem reads_overflow {captured : Array String} {spent : Nat} (h : Reads limit texts f)
    (hm : f.mode = .capturing captured spent) (hs : text ≠ resultStart) (he : text ≠ resultEnd)
    (hc : limit < spent + cost text) :
    Reads limit (texts ++ [text]) { f with mode := .logging, oversized := true } where
  capturing_iff := by
    obtain ⟨-, rfl⟩ := (h.capturing_iff captured spent).mp hm
    intro lines spent
    simp only [captures_concat, hs, false_and, false_or, reduceCtorEq, false_iff]
    rintro ⟨⟨before, -, -, -, hb, hc'⟩, -⟩
    rw [captures_eq_of_capturing h hm hb] at hc'
    omega
  kept_iff := by
    intro lines
    simp [accepts_concat, hs, he, h.kept_iff]
  oversized_iff := by
    obtain ⟨ho, rfl⟩ := (h.capturing_iff captured spent).mp hm
    simp only [true_iff, overflows_concat]
    exact .inr ⟨_, hs, he, ho, hc⟩

/-- Any other text goes on with the capture. -/
theorem reads_extend {captured : Array String} {spent : Nat} (h : Reads limit texts f)
    (hm : f.mode = .capturing captured spent) (hs : text ≠ resultStart) (he : text ≠ resultEnd)
    (hc : spent + cost text ≤ limit) :
    Reads limit (texts ++ [text])
      { f with mode := .capturing (captured.push text) (spent + cost text) } where
  capturing_iff := by
    obtain ⟨ho, rfl⟩ := (h.capturing_iff captured spent).mp hm
    intro lines spent
    simp only [captures_concat, hs, false_and, false_or, Mode.capturing.injEq]
    constructor
    · rintro ⟨rfl, rfl⟩
      exact ⟨⟨captured.toList, by simp, hs, he, ho, hc⟩, by simp⟩
    · rintro ⟨⟨before, hl, -, -, hb, -⟩, rfl⟩
      rw [captures_eq_of_capturing h hm hb] at hl
      have hp : captured.push text = lines := by
        rw [← Array.toList_inj, Array.toList_push, hl]
      exact ⟨hp, by rw [hl, totalCost_concat]⟩
  kept_iff := by
    intro lines
    simp [accepts_concat, hs, he, h.kept_iff]
  oversized_iff := by
    obtain ⟨-, rfl⟩ := (h.capturing_iff captured spent).mp hm
    simp only [overflows_concat, h.oversized_iff, iff_self_or]
    rintro ⟨before, -, -, hb, hc'⟩
    rw [captures_eq_of_capturing h hm hb] at hc'
    omega

theorem reads_turn (h : Reads l.resultBytes texts f) :
    Reads l.resultBytes (texts ++ stdoutTexts [line]) (f.turn l line) := by
  cases line with
  | stderr text => simpa [turn] using h
  | stdout text =>
    simp only [turn, stdoutTexts_cons_stdout, stdoutTexts_nil]
    split
    · rename_i hs
      exact hs ▸ reads_restart h
    · rename_i hs
      cases hm : f.mode with
      | logging => exact reads_idle h hm hs
      | capturing captured spent =>
        dsimp only
        split
        · rename_i he
          exact he ▸ reads_accept h hm
        · rename_i he
          split
          · rename_i hc
            exact reads_overflow h hm hs he hc
          · rename_i hc
            exact reads_extend h hm hs he (Nat.not_lt.mp hc)

theorem reads_push (h : Reads l.resultBytes texts f) :
    Reads l.resultBytes (texts ++ stdoutTexts [line]) (f.push l line) := by
  rw [push_eq]
  exact reads_logAll (reads_turn h)

theorem reads_pushes (h : Reads l.resultBytes texts f) :
    Reads l.resultBytes (texts ++ stdoutTexts lines) (lines.foldl (push l) f) := by
  induction lines generalizing texts f with
  | nil => simpa using h
  | cons line lines ih =>
    have hl : Reads l.resultBytes (texts ++ stdoutTexts [line]) (f.push l line) := reads_push h
    have hr := ih hl
    rwa [List.append_assoc, ← stdoutTexts_append] at hr

theorem reads_run : Reads l.resultBytes (stdoutTexts lines) (run l lines) := by
  have h : Reads l.resultBytes ([] ++ stdoutTexts lines) (lines.foldl (push l) start) :=
    reads_pushes reads_start
  simpa [run] using h

theorem isCapturing_iff_of_reads (h : Reads limit texts f) :
    f.isCapturing = true ↔ ∃ body, Captures limit texts body := by
  unfold isCapturing
  cases hm : f.mode with
  | logging => simp [not_captures_of_logging h hm]
  | capturing captured spent =>
    have hc := ((h.capturing_iff captured spent).mp hm).1
    simp only [true_iff]
    exact ⟨_, hc⟩

theorem finish_result :
    (f.finish l).result = f.kept.map fun lines => String.intercalate "\n" lines.toList := by
  simp [finish, logOpen_eq]

theorem finish_oversized : (f.finish l).oversized = f.oversized := by
  simp [finish, logOpen_eq]

end Frame

variable {l : Limits} {lines : List Line} {limit : Nat} {texts : List String} {text : String}

/-- The result is the text of the body that the grammar accepts. -/
theorem result_eq_some_iff :
    (decode l lines).result = some text ↔
      ∃ body, Accepts l.resultBytes (stdoutTexts lines) body ∧
        text = String.intercalate "\n" body := by
  rw [decode, Frame.finish_result, Option.map_eq_some_iff]
  simp only [Frame.reads_run.kept_iff]
  constructor
  · rintro ⟨kept, ha, rfl⟩
    exact ⟨kept.toList, ha, rfl⟩
  · rintro ⟨body, ha, rfl⟩
    exact ⟨body.toArray, by simpa using ha, by simp⟩

theorem isCapturing_iff :
    (Frame.run l lines).isCapturing = true ↔
      ∃ body, Captures l.resultBytes (stdoutTexts lines) body :=
  Frame.isCapturing_iff_of_reads Frame.reads_run

theorem oversized_iff :
    (decode l lines).oversized = true ↔ Overflows l.resultBytes (stdoutTexts lines) := by
  rw [decode, Frame.finish_oversized]
  exact Frame.reads_run.oversized_iff

/-- Lines of which the grammar accepts the same bodies have the same result. -/
theorem result_congr {m : Limits} {others : List Line}
    (h : ∀ body, Accepts l.resultBytes (stdoutTexts lines) body ↔
      Accepts m.resultBytes (stdoutTexts others) body) :
    (decode l lines).result = (decode m others).result := by
  apply Option.ext
  intro text
  rw [result_eq_some_iff, result_eq_some_iff]
  simp only [h]

/-- Decoding is the grammar: the accepted body is kept and its text is the result, a capture is
open if the grammar has one, and the output counts as oversized if some capture overflows. Lines
on standard error have no part in this, and nothing before a start sentinel has a part in the
result. -/
theorem decode_grammar (l : Limits) (lines : List Line) :
    (∀ kept, (Frame.run l lines).kept = some kept ↔
      Accepts l.resultBytes (stdoutTexts lines) kept.toList) ∧
    (∀ text, (decode l lines).result = some text ↔
      ∃ body, Accepts l.resultBytes (stdoutTexts lines) body ∧
        text = String.intercalate "\n" body) ∧
    ((Frame.run l lines).isCapturing = true ↔
      ∃ body, Captures l.resultBytes (stdoutTexts lines) body) ∧
    ((decode l lines).oversized = true ↔ Overflows l.resultBytes (stdoutTexts lines)) ∧
    (∀ n others, stdoutTexts others = stdoutTexts lines →
      (decode ⟨n, l.resultBytes⟩ others).result = (decode l lines).result ∧
      (Frame.run ⟨n, l.resultBytes⟩ others).isCapturing = (Frame.run l lines).isCapturing ∧
      (decode ⟨n, l.resultBytes⟩ others).oversized = (decode l lines).oversized) ∧
    ∀ n others pre pre' rest, stdoutTexts lines = pre ++ [resultStart] ++ rest →
      stdoutTexts others = pre' ++ [resultStart] ++ rest →
      (decode ⟨n, l.resultBytes⟩ others).result = (decode l lines).result := by
  refine ⟨Frame.reads_run.kept_iff, fun text => result_eq_some_iff, isCapturing_iff, oversized_iff,
    ?_, ?_⟩
  · intro n others ho
    refine ⟨?_, ?_, ?_⟩
    · apply result_congr
      rw [ho]
      exact fun body => Iff.rfl
    · rw [Bool.eq_iff_iff, isCapturing_iff, isCapturing_iff, ho]
    · rw [Bool.eq_iff_iff, oversized_iff, oversized_iff, ho]
  · intro n others pre pre' rest hl ho
    apply result_congr
    rw [hl, ho]
    exact fun body => accepts_after_start

/-- A line on standard error inside the capture and another beginning make no difference. -/
theorem decode_grammar_interleaved :
    let lines := [.stdout "noise", .stdout resultStart, .stderr "warning", .stdout "\x7b\x7d",
      .stdout resultEnd]
    let others := [.stdout resultStart, .stdout resultStart, .stdout "\x7b\x7d", .stdout resultEnd]
    (decode ⟨0, 16⟩ others).result = (decode ⟨8, 16⟩ lines).result :=
  (decode_grammar ⟨8, 16⟩ _).2.2.2.2.2 0 _ ["noise"] [resultStart] ["\x7b\x7d", resultEnd] rfl rfl

end HandlerHost.Output
