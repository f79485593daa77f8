import HandlerHost.Child.Schedule
import HandlerHost.Proofs.Output.Grammar
import HandlerHost.Proofs.Output.Lines

/-!
What a scene announces to its supervisor. Unless there is a flood, lines on one stream depend on the
bytes of that stream alone: what comes on the other one, and what its caller does on a line, changes
nothing.
-/
namespace HandlerHost.Child

open Output (Line RawLine forwarded maxLineBytes readLines stdoutTexts stdoutTexts_append)

/-- The line that a tick brings, if it brings one. -/
def Supervisor.Tick.line? : Supervisor.Tick → Option Line
  | .happen (.line l) => some l
  | _ => none

/-- What a write brings on standard output. -/
def Write.stdout? (w : Write) : Option (List UInt8) :=
  match w.stream with
  | .stdout => some w.bytes
  | .stderr => none

namespace Scene

variable {s : Scene} {t : Supervisor.Tick} {l : Line} {stream : Stream} {ls : List RawLine}
  {bytes : List UInt8} {e : Event}

/-- The lines that have been announced, in order. -/
def announced (s : Scene) : List Line := s.ticks.reverse.filterMap Supervisor.Tick.line?

/-- What a scene comes to when all this is written. -/
def writeAll (s : Scene) (ws : List Write) : Scene :=
  ws.foldl (fun s w => s.write w.stream w.bytes) s

theorem announced_tick : (s.tick t).announced = s.announced ++ t.line?.toList := by
  simp only [announced, tick, List.reverse_cons, List.filterMap_append]
  cases h : t.line? <;> simp [h]

theorem floods_refill : s.refill.floods = s.floods := by
  unfold refill
  split <;> rfl

theorem out_refill : s.refill.out = s.out := by
  unfold refill
  split <;> rfl

theorem floods_happen : (s.happen e).floods = s.floods := floods_refill

theorem out_happen : (s.happen e).out = s.out := out_refill

theorem happen_of_calm (h : s.floods = []) : s.happen e = (s.tick (.happen e)).tick .poll := by
  have hcalm : ((s.tick (.happen e)).tick .poll).floods = [] := h
  rw [happen, refill, hcalm]

theorem floods_line : (s.line l).floods = s.floods := by
  simp only [line]
  split
  · exact floods_happen.trans floods_happen
  · exact floods_happen

theorem floods_lines : (s.lines stream ls).floods = s.floods := by
  induction ls generalizing s with
  | nil => rfl
  | cons l ls ih => exact (ih (s := s.line (stream.line l.text))).trans floods_line

theorem floods_write : (s.write stream bytes).floods = s.floods := by
  cases stream with
  | stdout => exact floods_lines
  | stderr => exact floods_lines

theorem announced_happen (h : s.floods = []) :
    (s.happen e).announced = s.announced ++ (Supervisor.Tick.happen e).line?.toList := by
  simp [happen_of_calm h, announced_tick, Supervisor.Tick.line?]

theorem announced_line (h : s.floods = []) : (s.line l).announced = s.announced ++ [l] := by
  have hcalm : (s.happen (.line l)).floods = [] := floods_happen.trans h
  simp only [line]
  split <;> simp [announced_happen h, announced_happen hcalm, Supervisor.Tick.line?]

theorem out_line : (s.line l).out = s.out := by
  simp only [line]
  split
  · exact out_happen.trans out_happen
  · exact out_happen

theorem announced_lines (h : s.floods = []) :
    (s.lines stream ls).announced = s.announced ++ ls.map fun l => stream.line l.text := by
  induction ls generalizing s with
  | nil => simp [lines]
  | cons l ls ih =>
    have hcons : s.lines stream (l :: ls) = (s.line (stream.line l.text)).lines stream ls := rfl
    rw [hcons, ih (floods_line.trans h), announced_line h]
    simp

theorem out_lines : (s.lines stream ls).out = s.out := by
  induction ls generalizing s with
  | nil => rfl
  | cons l ls ih =>
    have h : s.lines stream (l :: ls) = (s.line (stream.line l.text)).lines stream ls := rfl
    rw [h, ih, out_line]

theorem stdoutTexts_stream_line :
    stdoutTexts (ls.map fun l => stream.line l.text) =
      match stream with
      | .stdout => ls.map RawLine.text
      | .stderr => [] := by
  induction ls with
  | nil => cases stream <;> rfl
  | cons l ls ih => cases stream <;> simp_all [Stream.line]

/-- A write on standard output announces the lines that end in it. -/
theorem write_stdout (h : s.floods = []) :
    stdoutTexts (s.write .stdout bytes).announced =
      stdoutTexts s.announced ++ (s.out.feed maxLineBytes bytes).1.map RawLine.text ∧
    (s.write .stdout bytes).out = (s.out.feed maxLineBytes bytes).2 := by
  constructor
  · have hcalm : ({ s with out := (s.out.feed maxLineBytes bytes).2 } : Scene).floods = [] := h
    simp only [write, announced_lines hcalm, stdoutTexts_append, stdoutTexts_stream_line]
    rfl
  · simp only [write, out_lines]

theorem write_stderr (h : s.floods = []) :
    stdoutTexts (s.write .stderr bytes).announced = stdoutTexts s.announced ∧
    (s.write .stderr bytes).out = s.out := by
  constructor
  · have hcalm : ({ s with err := (s.err.feed maxLineBytes bytes).2 } : Scene).floods = [] := h
    simp only [write, announced_lines hcalm, stdoutTexts_append, stdoutTexts_stream_line,
      List.append_nil]
    rfl
  · simp only [write, out_lines]

/-- The end of the streams announces what is left of each. -/
theorem announced_close (h : s.floods = []) :
    s.close.announced = s.announced ++
      (s.out.rest maxLineBytes).toList.map (fun l => .stdout l.text) ++
      (s.err.rest maxLineBytes).toList.map (fun l => .stderr l.text) := by
  have hstart : ({ s with out := .start, err := .start } : Scene).floods = [] := h
  rw [close, announced_happen (floods_lines.trans (floods_lines.trans hstart)),
    announced_lines (floods_lines.trans hstart), announced_lines hstart]
  exact List.append_nil _

theorem stdoutTexts_close (h : s.floods = []) :
    stdoutTexts s.close.announced =
      stdoutTexts s.announced ++ ((s.out.rest maxLineBytes).toList).map RawLine.text := by
  have hout := @stdoutTexts_stream_line .stdout (s.out.rest maxLineBytes).toList
  have herr := @stdoutTexts_stream_line .stderr (s.err.rest maxLineBytes).toList
  simp only [Stream.line] at hout herr
  rw [announced_close h, stdoutTexts_append, stdoutTexts_append, hout, herr, List.append_nil]

/-- A scene in any state but a flood announces the lines of its open line and of all that is
written. -/
theorem stdoutTexts_writeAll (h : s.floods = []) (ws : List Write) :
    stdoutTexts (s.writeAll ws).close.announced =
      stdoutTexts s.announced ++
        (readLines maxLineBytes s.out (ws.filterMap Write.stdout?)).map RawLine.text := by
  induction ws generalizing s with
  | nil => exact stdoutTexts_close h
  | cons w ws ih =>
    have hcons : s.writeAll (w :: ws) = (s.write w.stream w.bytes).writeAll ws := rfl
    rw [hcons, ih (floods_write.trans h), List.filterMap_cons]
    cases hw : w.stream with
    | stdout =>
      rw [(write_stdout h).1, (write_stdout h).2]
      simp [Write.stdout?, hw, readLines]
    | stderr =>
      rw [(write_stderr h).1, (write_stderr h).2]
      simp [Write.stdout?, hw]

/-- The lines announced on standard output are those that its bytes are forwarded as. -/
theorem stdoutTexts_announced (cancelOn : Line → Bool) (ws : List Write) :
    stdoutTexts ((start cancelOn).writeAll ws).close.announced =
      forwarded (ws.filterMap Write.stdout?) :=
  stdoutTexts_writeAll rfl ws

end Scene

end HandlerHost.Child
