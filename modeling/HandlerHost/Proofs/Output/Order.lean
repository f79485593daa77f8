import HandlerHost.Proofs.Output.Retention
import Mathlib.Data.List.Perm.Subperm

/-!
The order of the logs. The lines of the two streams are mixed, and each stream's keep their order,
but for one thing: a result that is taken back is logged when the start sentinel comes, after the
lines that were printed behind it.
-/
namespace HandlerHost.Output

open scoped List

variable {α : Type} {xs ys zs xs' ys' zs' : List α} {l : Limits} {f g : Frame} {line : Line}
  {lines : List Line} {limit : Nat} {texts : List String} {text : String}

/-- The last list has the items of both others, and the items of either in their order. -/
inductive Interleaves {α : Type} : List α → List α → List α → Prop
  | nil : Interleaves [] [] []
  | left (x : α) {xs ys zs : List α} (h : Interleaves xs ys zs) : Interleaves (x :: xs) ys (x :: zs)
  | right (y : α) {xs ys zs : List α} (h : Interleaves xs ys zs) :
      Interleaves xs (y :: ys) (y :: zs)

theorem Interleaves.append (h : Interleaves xs ys zs) (h' : Interleaves xs' ys' zs') :
    Interleaves (xs ++ xs') (ys ++ ys') (zs ++ zs') := by
  induction h with
  | nil => exact h'
  | left x _ ih => exact .left x ih
  | right y _ ih => exact .right y ih

theorem interleaves_nil_left : Interleaves [] ys zs ↔ ys = zs := by
  constructor
  · intro h
    generalize hx : ([] : List α) = xs at h
    induction h with
    | nil => rfl
    | left => cases hx
    | right y _ ih => rw [ih hx]
  · rintro rfl
    induction ys with
    | nil => exact .nil
    | cons y ys ih => exact .right y ih

theorem Interleaves.filter (p : α → Bool) (h : Interleaves xs ys zs) :
    Interleaves (xs.filter p) (ys.filter p) (zs.filter p) := by
  induction h with
  | nil => exact .nil
  | left x _ ih =>
    simp only [List.filter_cons]
    split
    · exact .left x ih
    · exact ih
  | right y _ ih =>
    simp only [List.filter_cons]
    split
    · exact .right y ih
    · exact ih

def Line.stderr? : Line → Option String
  | .stdout _ => none
  | .stderr text => some text

/-- The texts on standard error, in order. -/
def stderrTexts (lines : List Line) : List String := lines.filterMap Line.stderr?

/-- The lines on standard output, with the others left out. -/
def outputLines (lines : List Line) : List Line := (stdoutTexts lines).map .stdout

@[simp] theorem stdoutTexts_map_stdout : stdoutTexts (texts.map .stdout) = texts := by
  induction texts with
  | nil => rfl
  | cons text texts ih => simp [ih]

namespace Frame

/-- What a line sheds and what it makes of the frame depends on the mode and the kept result. -/
theorem shed_congr (hm : f.mode = g.mode) (hk : f.kept = g.kept) :
    f.shed l line = g.shed l line := by
  have hkept : f.keptTexts = g.keptTexts := by rw [keptTexts, keptTexts, hk]
  have hopen : f.openTexts = g.openTexts := by rw [openTexts, openTexts, hm]
  unfold shed
  rw [hkept, hopen, hm]

theorem push_congr (hm : f.mode = g.mode) (hk : f.kept = g.kept) :
    (f.push l line).mode = (g.push l line).mode ∧ (f.push l line).kept = (g.push l line).kept := by
  rw [push_eq, push_eq, logAll_mode, logAll_mode, logAll_kept, logAll_kept]
  unfold turn
  rw [hm]
  split
  · exact ⟨hm, hk⟩
  · split
    · exact ⟨rfl, rfl⟩
    · split
      · exact ⟨hm, hk⟩
      · split
        · exact ⟨rfl, rfl⟩
        · split
          · exact ⟨rfl, hk⟩
          · exact ⟨rfl, hk⟩

/-- A line on standard error changes neither the mode nor the kept result. -/
theorem push_stderr : (f.push l (.stderr text)).mode = f.mode ∧
    (f.push l (.stderr text)).kept = f.kept := by
  rw [push_eq, logAll_mode, logAll_kept]
  exact ⟨rfl, rfl⟩

/-- The lines on standard output shed the same among lines on standard error. -/
theorem interleaves_shedAll (hm : f.mode = g.mode) (hk : f.kept = g.kept) :
    Interleaves (stderrTexts lines) (g.shedAll l (outputLines lines)) (f.shedAll l lines) := by
  induction lines generalizing f g with
  | nil => exact .nil
  | cons line lines ih =>
    cases line with
    | stderr text =>
      have ⟨hm', hk'⟩ : (f.push l (.stderr text)).mode = f.mode ∧
          (f.push l (.stderr text)).kept = f.kept := push_stderr
      exact .left text (ih (hm'.trans hm) (hk'.trans hk))
    | stdout text =>
      have ⟨hm', hk'⟩ : (f.push l (.stdout text)).mode = (g.push l (.stdout text)).mode ∧
          (f.push l (.stdout text)).kept = (g.push l (.stdout text)).kept := push_congr hm hk
      have hshed : f.shed l (.stdout text) = g.shed l (.stdout text) := shed_congr hm hk
      have h := ih hm' hk'
      rw [shedAll, hshed]
      exact (interleaves_nil_left.mpr rfl).append h

theorem run_outputLines (hm : f.mode = g.mode) (hk : f.kept = g.kept) :
    (lines.foldl (push l) f).mode = ((outputLines lines).foldl (push l) g).mode := by
  induction lines generalizing f g with
  | nil => exact hm
  | cons line lines ih =>
    cases line with
    | stderr text =>
      have ⟨hm', hk'⟩ : (f.push l (.stderr text)).mode = f.mode ∧
          (f.push l (.stderr text)).kept = f.kept := push_stderr
      exact ih (hm'.trans hm) (hk'.trans hk)
    | stdout text =>
      have ⟨hm', hk'⟩ : (f.push l (.stdout text)).mode = (g.push l (.stdout text)).mode ∧
          (f.push l (.stdout text)).kept = (g.push l (.stdout text)).kept := push_congr hm hk
      exact ih hm' hk'

/-- A text on standard output is shed or held behind all that was held before, unless it is logged
while a result is kept. -/
theorem shed_held (hr : Reads limit texts f)
    (h : text ≠ resultStart → f.mode = .logging → f.kept = none) :
    f.shed l (.stdout text) ++ (f.turn l (.stdout text)).held = f.held ++ [text] := by
  simp only [shed, turn]
  split
  · rename_i hs
    simp [held, keptTexts, openTexts, hs]
  · cases hm : f.mode with
    | logging => simp [held, keptTexts, openTexts, hm, h (by assumption) hm]
    | capturing captured spent =>
      have hk := kept_eq_none_of_capturing hr hm
      dsimp only
      split
      · rename_i he
        simp [held, keptTexts, openTexts, hm, hk, he]
      · split <;> simp [held, keptTexts, openTexts, hm, hk]

end Frame

/-- A complete frame is followed by a text that is logged at once, and then by a start sentinel,
which brings the frame into the logs. -/
def Overtaken (limit : Nat) (texts : List String) : Prop :=
  ∃ pre body mid post, Frames limit texts pre body (mid ++ [resultStart] ++ post) ∧
    resultStart ∉ mid ∧ nonBlank mid ≠ []

/-- A complete frame is followed by a text that is logged at once, and by no start sentinel yet. -/
def Late (limit : Nat) (texts : List String) : Prop :=
  ∃ pre body mid, Frames limit texts pre body mid ∧ resultStart ∉ mid ∧ nonBlank mid ≠ []

theorem Frames.append {pre body post more : List String} (h : Frames limit texts pre body post) :
    Frames limit (texts ++ more) pre body (post ++ more) := by
  obtain ⟨rfl, hf, hc⟩ := h
  exact ⟨by simp, hf, hc⟩

theorem Overtaken.append {more : List String} (h : Overtaken limit texts) :
    Overtaken limit (texts ++ more) := by
  obtain ⟨pre, body, mid, post, hf, hs, hb⟩ := h
  have hmore : Frames limit (texts ++ more) pre body (mid ++ [resultStart] ++ post ++ more) :=
    hf.append
  exact ⟨pre, body, mid, post ++ more, by simpa using hmore, hs, hb⟩

/-- A start sentinel brings a late frame into the logs. -/
theorem Late.overtaken (h : Late limit texts) : Overtaken limit (texts ++ [resultStart]) := by
  obtain ⟨pre, body, mid, hf, hs, hb⟩ := h
  have hstart : Frames limit (texts ++ [resultStart]) pre body (mid ++ [resultStart]) := hf.append
  exact ⟨pre, body, mid, [], by simpa using hstart, hs, hb⟩

theorem Late.append (h : Late limit texts) (ht : text ≠ resultStart) :
    Late limit (texts ++ [text]) := by
  obtain ⟨pre, body, mid, hf, hs, hb⟩ := h
  refine ⟨pre, body, mid ++ [text], hf.append, ?_, ?_⟩
  · simp [hs, Ne.symm ht]
  · simp [nonBlank_append, hb]

/-- A text that is logged while a result is kept makes its frame late. -/
theorem late_of_accepts {body : List String} (h : Accepts limit texts body)
    (ht : text ≠ resultStart) (hb : Text.blank text = false) : Late limit (texts ++ [text]) := by
  obtain ⟨pre, post, hf, hs⟩ := accepts_iff_frames.mp h
  refine ⟨pre, body, post ++ [text], hf.append, ?_, ?_⟩
  · simp [hs, Ne.symm ht]
  · simp [nonBlank, hb]

namespace Frame

/-- What has been shed and what is held stand in the order in which they were printed, or a frame is
late and what has been shed does. -/
def InOrder (limit : Nat) (texts shed : List String) (f : Frame) : Prop :=
  nonBlank (shed ++ f.held) <+ texts ∨
    f.mode = .logging ∧ Late limit texts ∧ nonBlank shed <+ texts

/-- Outside of a capture a text is logged at once. -/
theorem shed_of_logging (hm : f.mode = .logging) (hs : text ≠ resultStart) :
    f.shed l (.stdout text) = [text] ∧ f.turn l (.stdout text) = f := by
  simp only [shed, turn, hm, if_neg hs, and_self]

theorem inOrder_turn {shed : List String} (hr : Reads limit texts f)
    (ho : InOrder limit texts shed f) (hn : ¬ Overtaken limit (texts ++ [text])) :
    InOrder limit (texts ++ [text]) (shed ++ f.shed l (.stdout text)) (f.turn l (.stdout text)) := by
  have hlog : ∀ {logged : List String}, nonBlank logged <+ texts →
      nonBlank (logged ++ [text]) <+ texts ++ [text] := by
    intro logged h
    rw [nonBlank_append]
    exact h.append List.filter_sublist
  rcases ho with ho | ⟨hm, hlate, ho⟩
  · by_cases hk : text ≠ resultStart → f.mode = .logging → f.kept = none
    · refine .inl ?_
      rw [List.append_assoc, shed_held hr hk, ← List.append_assoc]
      exact hlog ho
    · -- The text goes to the logs before the kept result.
      obtain ⟨hs, hk⟩ := Classical.not_imp.mp hk
      obtain ⟨hm, hk⟩ := Classical.not_imp.mp hk
      obtain ⟨kept, hkept⟩ := Option.ne_none_iff_exists'.mp hk
      obtain ⟨hshed, hturn⟩ := shed_of_logging (l := l) hm hs
      rw [hshed, hturn]
      cases hb : Text.blank text with
      | true =>
        have hsame : nonBlank (shed ++ [text] ++ f.held) = nonBlank (shed ++ f.held) := by
          simp [nonBlank, hb]
        exact .inl (hsame ▸ ho.trans (List.sublist_append_left _ _))
      | false =>
        have hle : nonBlank shed <+ texts := by
          rw [nonBlank_append] at ho
          exact (List.sublist_append_left _ _).trans ho
        exact .inr ⟨hm, late_of_accepts ((hr.kept_iff kept).mp hkept) hs hb, hlog hle⟩
  · have hs : text ≠ resultStart := by
      rintro rfl
      exact hn hlate.overtaken
    obtain ⟨hshed, hturn⟩ := shed_of_logging (l := l) hm hs
    rw [hshed, hturn]
    exact .inr ⟨hm, hlate.append hs, hlog ho⟩

theorem inOrder_run (hn : ¬ Overtaken l.resultBytes texts) :
    InOrder l.resultBytes texts (start.shedAll l (texts.map .stdout)) (run l (texts.map .stdout)) := by
  induction texts using List.reverseRecOn with
  | nil => exact .inl (by simp [nonBlank, shedAll, held, keptTexts, openTexts, run, start])
  | append_singleton texts text ih =>
    have hr : Reads l.resultBytes texts (run l (texts.map .stdout)) := by
      have hr : Reads l.resultBytes (stdoutTexts (texts.map .stdout))
          (run l (texts.map .stdout)) := reads_run
      rwa [stdoutTexts_map_stdout] at hr
    have ho := inOrder_turn (l := l) hr (ih fun h => hn h.append) hn
    have hrun : run l ((texts ++ [text]).map .stdout) =
        (run l (texts.map .stdout)).push l (.stdout text) := by
      simp [run]
    have hshed : start.shedAll l ((texts ++ [text]).map .stdout) =
        start.shedAll l (texts.map .stdout) ++ (run l (texts.map .stdout)).shed l (.stdout text) := by
      rw [List.map_append, shedAll_append, ← run]
      simp [shedAll]
    rw [hrun, hshed, push_eq]
    simpa [InOrder] using ho

end Frame

/-- What standard output alone would log stands in order unless a frame is overtaken. -/
theorem logged_sublist (hn : ¬ Overtaken l.resultBytes texts) :
    Frame.logged l (texts.map .stdout) <+ texts := by
  rw [Frame.logged]
  rcases Frame.inOrder_run hn with h | ⟨hm, -, h⟩
  · have hopen : (Frame.run l (texts.map .stdout)).openTexts <+
        (Frame.run l (texts.map .stdout)).held := List.sublist_append_right _ _
    exact ((hopen.append_left _).filter _).trans h
  · have hopen : (Frame.run l (texts.map .stdout)).openTexts = [] := by
      rw [Frame.openTexts, hm]
    rwa [hopen, List.append_nil]

theorem interleaves_logged : Interleaves (nonBlank (stderrTexts lines))
    (Frame.logged l (outputLines lines)) (Frame.logged l lines) := by
  have hopen : (Frame.run l (outputLines lines)).openTexts = (Frame.run l lines).openTexts := by
    have hm : (Frame.run l lines).mode = (Frame.run l (outputLines lines)).mode :=
      Frame.run_outputLines rfl rfl
    rw [Frame.openTexts, Frame.openTexts, hm]
  have h : Interleaves (stderrTexts lines) (Frame.start.shedAll l (outputLines lines))
      (Frame.start.shedAll l lines) := Frame.interleaves_shedAll rfl rfl
  rw [Frame.logged, Frame.logged, hopen]
  have ho := h.append (interleaves_nil_left.mpr (rfl : (Frame.run l lines).openTexts = _))
  rw [List.append_nil] at ho
  exact ho.filter _

/-- Under a cap that all lines fit in, the logs mix the lines on standard error, in order and but
for blank ones, with what standard output alone would log. This is part of what was printed there,
and unless a frame is overtaken it stands in the order in which it was printed. -/
theorem logs_interleave (hc : lines.length ≤ l.logLines) :
    let out := (decode l (outputLines lines)).logs
    Interleaves (nonBlank (stderrTexts lines)) out (decode l lines).logs ∧
      out <+~ stdoutTexts lines ∧
      (¬ Overtaken l.resultBytes (stdoutTexts lines) → out <+ stdoutTexts lines) := by
  intro out
  have hlen : (outputLines lines).length ≤ l.logLines := by
    rw [outputLines, List.length_map]
    exact Nat.le_trans (List.length_filterMap_le _ _) hc
  have hout : out = Frame.logged l (outputLines lines) := decode_logs_of_le hlen
  rw [hout, decode_logs_of_le hc]
  refine ⟨interleaves_logged, ?_, logged_sublist⟩
  have hp : Frame.logged l (outputLines lines) ++
      nonBlank (Frame.run l (outputLines lines)).keptTexts ~
        nonBlank ((outputLines lines).map Line.text) := Frame.logged_perm
  have htexts : (outputLines lines).map Line.text = stdoutTexts lines := by
    simp [outputLines, Line.text, Function.comp_def]
  rw [htexts] at hp
  exact ((List.sublist_append_left _ _).subperm.trans hp.subperm).trans List.filter_sublist.subperm

/-- A warning comes while a capture is open that a start sentinel gives up, and the next one is
never closed. -/
theorem logs_interleave_restarted :
    let lines := [.stdout resultStart, .stderr "warning", .stdout "old", .stdout resultStart,
      .stdout "", .stdout "\x7b\x7d"]
    let out := (decode ⟨8, 16⟩ (outputLines lines)).logs
    Interleaves ["warning"] out (decode ⟨8, 16⟩ lines).logs ∧ out <+ stdoutTexts lines := by
  intro lines out
  have hinorder : ¬ Overtaken 16 (stdoutTexts lines) := by
    rintro ⟨_, _, _, _, hf, -⟩
    exact absurd hf.sentinels_mem.2 (by decide)
  have hlen : lines.length ≤ (⟨8, 16⟩ : Limits).logLines := by decide
  obtain ⟨hmix, -, hsub⟩ := logs_interleave hlen
  exact ⟨hmix, hsub hinorder⟩

/-- A text that was printed behind a frame stands before it in the logs. -/
theorem logs_overtaken :
    let lines := [.stdout resultStart, .stdout "a", .stdout resultEnd, .stdout "x",
      .stdout resultStart, .stdout "b", .stdout resultEnd]
    (decode ⟨8, 16⟩ lines).logs = ["x", resultStart, "a", resultEnd] ∧
      ∀ out, Interleaves (nonBlank (stderrTexts lines)) out (decode ⟨8, 16⟩ lines).logs →
        ¬ out <+ stdoutTexts lines := by
  intro lines
  have hlogs : (decode ⟨8, 16⟩ lines).logs = ["x", resultStart, "a", resultEnd] := by decide
  refine ⟨hlogs, fun out h => ?_⟩
  obtain rfl := interleaves_nil_left.mp h
  rw [hlogs]
  decide

end HandlerHost.Output
