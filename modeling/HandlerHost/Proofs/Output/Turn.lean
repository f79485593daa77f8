import HandlerHost.Proofs.Output.Grammar

/-!
A line does two things to a frame: it turns the frame apart from its logs, and it sheds lines that
the frame logs. Neither depends on the logs, so what is captured and kept can be studied without
them.
-/
namespace HandlerHost.Output.Frame

variable {l : Limits} {f : Frame} {line : Line} {lines : List Line} {text : String}
  {texts : List String}

/-- Logs some texts. -/
def logAll (l : Limits) (f : Frame) (texts : List String) : Frame := texts.foldl (log l) f

/-- The texts that a kept result gives back. -/
def keptTexts (f : Frame) : List String :=
  match f.kept with
  | none => []
  | some lines => resultStart :: lines.toList ++ [resultEnd]

/-- The texts that an open capture gives back. -/
def openTexts (f : Frame) : List String :=
  match f.mode with
  | .logging => []
  | .capturing lines _ => resultStart :: lines.toList

/-- The texts that a line sends to the logs. -/
def shed (l : Limits) (f : Frame) : Line → List String
  | .stderr text => [text]
  | .stdout text =>
    if text = resultStart then f.keptTexts ++ f.openTexts
    else
      match f.mode with
      | .logging => [text]
      | .capturing _ spent =>
        if text = resultEnd then []
        else if l.resultBytes < spent + cost text then f.openTexts ++ [text]
        else []

/-- The frame after a line, apart from its logs. -/
def turn (l : Limits) (f : Frame) : Line → Frame
  | .stderr _ => f
  | .stdout text =>
    if text = resultStart then { f with mode := .capturing #[] 0, kept := none }
    else
      match f.mode with
      | .logging => f
      | .capturing lines spent =>
        if text = resultEnd then { f with mode := .logging, kept := some lines }
        else if l.resultBytes < spent + cost text then
          { f with mode := .logging, oversized := true }
        else { f with mode := .capturing (lines.push text) (spent + cost text) }

@[simp] theorem logAll_nil : f.logAll l [] = f := rfl

@[simp] theorem logAll_cons : f.logAll l (text :: texts) = (f.log l text).logAll l texts := rfl

theorem logAll_append {more : List String} :
    f.logAll l (texts ++ more) = (f.logAll l texts).logAll l more := List.foldl_append

/-- Logging changes the logs and the number of dropped lines alone. -/
theorem log_frame (l : Limits) (f : Frame) (text : String) :
    ∃ logs dropped, f.log l text = { f with logs, dropped } := by
  unfold log
  split
  · exact ⟨_, _, rfl⟩
  · split <;> exact ⟨_, _, rfl⟩

theorem logAll_frame (l : Limits) (f : Frame) (texts : List String) :
    ∃ logs dropped, f.logAll l texts = { f with logs, dropped } := by
  induction texts generalizing f with
  | nil => exact ⟨_, _, rfl⟩
  | cons text texts ih =>
    obtain ⟨logs, dropped, h⟩ := log_frame l f text
    obtain ⟨logs, dropped, h'⟩ := ih (f.log l text)
    exact ⟨logs, dropped, by rw [logAll_cons, h', h]⟩

@[simp] theorem logAll_mode : (f.logAll l texts).mode = f.mode := by
  obtain ⟨_, _, h⟩ := logAll_frame l f texts
  rw [h]

@[simp] theorem logAll_kept : (f.logAll l texts).kept = f.kept := by
  obtain ⟨_, _, h⟩ := logAll_frame l f texts
  rw [h]

@[simp] theorem logAll_oversized : (f.logAll l texts).oversized = f.oversized := by
  obtain ⟨_, _, h⟩ := logAll_frame l f texts
  rw [h]

/-- What is logged does not depend on the mode. -/
theorem log_withMode {m : Mode} :
    log l { f with mode := m } text = { f.log l text with mode := m } := by
  unfold log
  split
  · rfl
  · split <;> rfl

theorem logAll_withMode {m : Mode} :
    logAll l { f with mode := m } texts = { f.logAll l texts with mode := m } := by
  induction texts generalizing f with
  | nil => rfl
  | cons text texts ih => rw [logAll_cons, log_withMode, ih, logAll_cons]

theorem logCapture_eq {captured : Array String} :
    f.logCapture l captured = f.logAll l (resultStart :: captured.toList) := by
  simp [logCapture, logAll]

theorem logKept_eq : f.logKept l = logAll l { f with kept := none } f.keptTexts := by
  unfold logKept keptTexts
  cases hk : f.kept with
  | none => simp [← hk]
  | some lines => simp [logCapture_eq, logAll_append]

theorem logOpen_eq : f.logOpen l = logAll l { f with mode := .logging } f.openTexts := by
  unfold logOpen openTexts
  cases hm : f.mode with
  | logging => simp [← hm]
  | capturing lines spent => simp [logCapture_eq]

theorem startCapture_eq :
    f.startCapture l =
      logAll l { f with mode := .capturing #[] 0, kept := none } (f.keptTexts ++ f.openTexts) := by
  have ho : (f.logKept l).openTexts = f.openTexts := by
    simp only [openTexts, logKept_eq, logAll_mode]
  calc
    f.startCapture l = logAll l { f.logKept l with mode := .capturing #[] 0 } f.openTexts := by
      rw [startCapture, logOpen_eq, ho, ← logAll_withMode]
    _ = _ := by rw [logKept_eq, ← logAll_withMode, logAll_append]

/-- A line turns the frame and logs what it sheds. -/
theorem push_eq : f.push l line = (f.turn l line).logAll l (f.shed l line) := by
  cases line with
  | stderr text => rfl
  | stdout text =>
    simp only [push, pushStdout, turn, shed, beq_iff_eq]
    split
    · exact startCapture_eq
    · cases hm : f.mode with
      | logging => rfl
      | capturing lines spent =>
        dsimp only
        split
        · rfl
        · split
          · simp [logOpen_eq, logAll_append, openTexts, hm]
          · rfl

end HandlerHost.Output.Frame
