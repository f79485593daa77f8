import HandlerHost.Proofs.Child.Completion

/-!
A life that ends by itself before the deadline. Its supervisor delivers each line when it comes and
returns the exit, whether the output ends before the deadline or is cut off there.
-/
namespace HandlerHost.Child

open Output (Line RawLine forwarded maxLineBytes stdoutTexts)

namespace Supervisor

variable {s : Supervisor} {l : Line} {ls more : List Line}

/-- A supervisor that would deliver a line at once. -/
structure Hears (s : Supervisor) : Prop where
  queue : s.sources.queue = []
  closed : s.sources.closed = false
  phase : (s.phase = .watching ∧ s.streamsOpen = true ∧ s.sources.cancelled = false ∧
    s.sources.due = false) ∨ ∃ t, s.phase = .draining t

/-- More lines have been delivered. -/
def take (s : Supervisor) (ls : List Line) : Supervisor := { s with taken := ls.reverse ++ s.taken }

theorem take_take : (s.take ls).take more = s.take (ls ++ more) := by simp [take]

theorem hears_take (h : s.Hears) : (s.take ls).Hears := ⟨h.queue, h.closed, h.phase⟩

theorem poll_line (h : s.Hears) : (s.happen (.line l)).poll = s.take [l] := by
  obtain ⟨⟨queue, closed, _, cancelled, due, _⟩, streamsOpen, _, taken, phase, _, _⟩ := s
  obtain ⟨hq, hc, hp⟩ := h
  dsimp only at hq hc hp
  subst hq hc
  rcases hp with ⟨rfl, rfl, rfl, rfl⟩ | ⟨t, rfl⟩
  · rfl
  · rfl

theorem hears_start : start.Hears := ⟨rfl, rfl, .inl ⟨rfl, rfl, rfl, rfl⟩⟩

theorem isWatching_take : (s.take ls).isWatching = s.isWatching := rfl

end Supervisor

namespace Scene

variable {s : Scene} {t : Supervisor.Tick} {l : Line} {stream : Stream} {ls : List RawLine}
  {bytes : List UInt8} {e : Event} {ws : List Write}

theorem Stable.writeAll {P : Scene → Prop} (h : Stable P) (hs : P s) : P (s.writeAll ws) := by
  induction ws generalizing s with
  | nil => exact hs
  | cons w ws ih => exact ih (s := s.write w.stream w.bytes) (h.write hs)

/-- A scene without a flood, whose caller lets the lines pass and whose supervisor delivers them as
they come. -/
structure Attends (s : Scene) : Prop where
  hears : s.supervisor.Hears
  calm : s.floods = []
  passes : ∀ l, s.cancelOn l = false

theorem line_of_attends (h : s.Attends) :
    (s.line l).Attends ∧ (s.line l).supervisor = s.supervisor.take [l] := by
  have hline : s.line l = (s.tick (.happen (.line l))).tick .poll := by
    rw [← happen_of_calm h.calm]
    simp [line, happen_of_calm h.calm, tick, h.passes]
  have hs : (s.line l).supervisor = (s.supervisor.happen (.line l)).poll := by
    rw [hline]
    rfl
  rw [Supervisor.poll_line h.hears] at hs
  exact ⟨⟨hs ▸ Supervisor.hears_take h.hears, floods_line.trans h.calm, hline ▸ h.passes⟩, hs⟩

theorem lines_of_attends (stream : Stream) (ls : List RawLine) (h : s.Attends) :
    (s.lines stream ls).Attends ∧
      (s.lines stream ls).supervisor = s.supervisor.take (ls.map fun l => stream.line l.text) := by
  induction ls generalizing s with
  | nil => exact ⟨h, rfl⟩
  | cons l ls ih =>
    obtain ⟨hl, hs⟩ := line_of_attends (l := stream.line l.text) h
    obtain ⟨hls, hss⟩ := ih hl
    refine ⟨hls, hss.trans ?_⟩
    rw [hs, Supervisor.take_take]
    rfl

/-- What has been announced since is what has been delivered since. -/
theorem write_of_attends (stream : Stream) (bytes : List UInt8) (h : s.Attends) :
    (s.write stream bytes).Attends ∧
      ∃ ls, (s.write stream bytes).supervisor = s.supervisor.take ls ∧
        (s.write stream bytes).announced = s.announced ++ ls := by
  cases stream with
  | stdout =>
    obtain ⟨ha, hs⟩ := lines_of_attends .stdout (s.out.feed maxLineBytes bytes).1
      (s := { s with out := (s.out.feed maxLineBytes bytes).2 }) ⟨h.hears, h.calm, h.passes⟩
    exact ⟨ha, _, hs, announced_lines (by exact h.calm)⟩
  | stderr =>
    obtain ⟨ha, hs⟩ := lines_of_attends .stderr (s.err.feed maxLineBytes bytes).1
      (s := { s with err := (s.err.feed maxLineBytes bytes).2 }) ⟨h.hears, h.calm, h.passes⟩
    exact ⟨ha, _, hs, announced_lines (by exact h.calm)⟩

theorem writeAll_of_attends (ws : List Write) (h : s.Attends) :
    (s.writeAll ws).Attends ∧ ∃ ls, (s.writeAll ws).supervisor = s.supervisor.take ls ∧
      (s.writeAll ws).announced = s.announced ++ ls := by
  induction ws generalizing s with
  | nil => exact ⟨h, [], rfl, by simp [writeAll]⟩
  | cons w ws ih =>
    obtain ⟨hw, ls, hs, ha⟩ := write_of_attends w.stream w.bytes h
    obtain ⟨hws, more, hss, hsa⟩ := ih hw
    refine ⟨hws, ls ++ more, hss.trans ?_, hsa.trans ?_⟩
    · rw [hs, Supervisor.take_take]
    · rw [ha, List.append_assoc]

theorem close_of_attends (h : s.Attends) :
    ∃ ls, s.close.supervisor = ((s.supervisor.take ls).happen .closed).poll ∧
      s.close.announced = s.announced ++ ls := by
  obtain ⟨ha, hs⟩ := lines_of_attends .stdout (s.out.rest maxLineBytes).toList
    (s := { s with out := .start, err := .start }) ⟨h.hears, h.calm, h.passes⟩
  obtain ⟨hb, hss⟩ := lines_of_attends .stderr (s.err.rest maxLineBytes).toList ha
  rw [hs, Supervisor.take_take] at hss
  refine ⟨_, ?_, (announced_close h.calm).trans (List.append_assoc _ _ _)⟩
  rw [close, happen_of_calm hb.calm]
  exact congrArg (fun v => (v.happen .closed).poll) hss

theorem play_watching {time now : Nat} {d : Deed} {ms : List Moment} (hd : d ≠ .abort)
    (hw : (s.perform d).supervisor.isWatching = true) :
    s.play now (⟨time, d⟩ :: ms) = (s.perform d).play time ms := by
  rw [play]
  simp only [beq_iff_eq, hd, if_false, hw, if_true]

theorem play_stopped {time now : Nat} {d : Deed} {ms : List Moment} (hd : d ≠ .abort)
    (hw : (s.perform d).supervisor.isWatching = false) :
    s.play now (⟨time, d⟩ :: ms) = (s.perform d).aftermath time ms := by
  rw [play]
  simp only [beq_iff_eq, hd, if_false, hw, Bool.false_eq_true]

/-- Writes are played one after the other while the supervisor watches. -/
theorem play_writes (ws : List Write) (now : Nat) (ms : List Moment) (h : s.Attends)
    (hw : s.supervisor.isWatching = true) :
    ∃ now', s.play now (ws.map (fun w => ⟨w.time, .write w.stream w.bytes⟩) ++ ms) =
      (s.writeAll ws).play now' ms := by
  induction ws generalizing s now with
  | nil => exact ⟨now, rfl⟩
  | cons w ws ih =>
    obtain ⟨ha, ls, hs, -⟩ := write_of_attends w.stream w.bytes h
    have hw' : (s.write w.stream w.bytes).supervisor.isWatching = true := by
      rw [hs, Supervisor.isWatching_take, hw]
    obtain ⟨now', hp⟩ := ih w.time ha hw'
    refine ⟨now', ?_⟩
    rw [List.map_cons, List.cons_append,
      play_watching (d := .write w.stream w.bytes) (by simp) hw']
    exact hp

end Scene

namespace Supervisor

variable {t : Termination}

theorem run_polls_over {s : Supervisor} {n : Nat} (h : s.phase = .over t) :
    s.run (List.replicate n .poll) = s := by
  induction n with
  | zero => rfl
  | succ n ih =>
    have hp : s.poll = s := by simp [poll, h]
    rw [List.replicate_succ, run, List.foldl_cons, tick, hp]
    exact ih

end Supervisor

namespace Scene

variable {s w : Scene} {e : Exit} {event : Event} {ls : List Line} {late : List Moment}
  {t : Termination}

/-- What a scene comes to when its process is killed and nobody else holds the output. -/
def afterKill (s : Scene) : Scene := (s.happen (.exited (.signal 9))).close.catchUp

theorem recorded_afterKill (h : s.Recorded) : s.afterKill.Recorded :=
  stable_recorded.catchUp (stable_recorded.close (stable_recorded.happen h))

/-- Only what had been written counts after the kill. -/
theorem aftermath_of_alone {now : Nat} (hf : s.floods = [])
    (hl : ∀ m ∈ late, m.deed = .close ∨ m.deed = .deadline)
    (ht : s.afterKill.supervisor.termination? = some t) :
    s.aftermath now late = s.afterKill.schedule now false := by
  have hcalm : { s with floods := s.floods.filter (·.spared) } = s := by
    rw [hf, List.filter_nil, ← hf]
  have hnone : late.filter (·.outlasts now) = [] := by
    refine List.filter_eq_nil_iff.mpr fun m hm => ?_
    rcases hl m hm with hd | hd <;> simp [Moment.outlasts, hd]
  have hlate : (⟨now + drainGrace, .graceOver⟩ : Moment).insertBefore [⟨now, .aside .release⟩] =
      [⟨now, .aside .release⟩, ⟨now + drainGrace, .graceOver⟩] := by
    simp [Moment.insertBefore, drainGrace]
  have hover : (s.happen (.exited (.signal 9))).close.catchUp.supervisor.termination?.isSome =
      true := Option.isSome_iff_exists.mpr ⟨t, ht⟩
  simp only [aftermath, hcalm, hnone, List.any_nil, Bool.false_eq_true, if_false]
  change Scene.collect _ now (Moment.insertBefore _ [⟨now, .aside .release⟩]) = _
  rw [hlate, collect]
  simp [hover, afterKill]

theorem supervisor_afterKill
    (h : (s.happen (.exited (.signal 9))).close.supervisor.phase = .over t) :
    s.afterKill.supervisor = (s.happen (.exited (.signal 9))).close.supervisor := by
  simp only [afterKill, catchUp, supervisor_foldl_tick]
  exact Supervisor.run_polls_over h

theorem supervisor_happen {e : Event} (h : s.floods = []) :
    (s.happen e).supervisor = (s.supervisor.happen e).poll := by
  rw [happen_of_calm h]
  rfl

theorem err_happen : (s.happen event).err = s.err := by
  rw [happen]
  unfold refill
  split <;> rfl

theorem err_lines {stream : Stream} {ls : List RawLine} : (s.lines stream ls).err = s.err := by
  have hline : ∀ (s : Scene) (l : Line), (s.line l).err = s.err := by
    intro s l
    simp only [line]
    split
    · exact err_happen.trans err_happen
    · exact err_happen
  induction ls generalizing s with
  | nil => rfl
  | cons l ls ih => exact (ih (s := s.line (stream.line l.text))).trans (hline _ _)

theorem open_close : s.close.out = .start ∧ s.close.err = .start := by
  constructor
  · exact out_happen.trans (out_lines.trans out_lines)
  · exact err_happen.trans (err_lines.trans err_lines)

theorem floods_close (h : s.floods = []) : s.close.floods = [] :=
  floods_happen.trans (floods_lines.trans (floods_lines.trans h))

/-- Nothing is left of streams that have ended. -/
theorem close_of_ended (hf : s.floods = []) (ho : s.out = .start) (he : s.err = .start) :
    s.close.supervisor = (s.supervisor.happen .closed).poll := by
  have hcalm : ({ s with out := .start, err := .start } : Scene).floods = [] := hf
  rw [close, ho, he]
  exact supervisor_happen hcalm

theorem cancelOn_happen : (s.happen event).cancelOn = s.cancelOn := by
  rw [happen]
  unfold refill
  split <;> rfl

theorem attends_happen (h : s.Attends) (hs : (s.supervisor.happen event).poll.Hears) :
    (s.happen event).Attends := by
  refine ⟨supervisor_happen h.calm ▸ hs, floods_happen.trans h.calm, ?_⟩
  rw [cancelOn_happen]
  exact h.passes

/-- The output ends before the deadline. -/
theorem ends_in_time (h : w.Attends) (hs : w.supervisor = Supervisor.start.take w.announced) :
    let s := (w.happen (.exited e)).close
    s.supervisor.isWatching = false ∧
    s.afterKill.supervisor.termination? = some (.exited e) ∧
    s.afterKill.supervisor.delivered = s.announced := by
  intro s
  have hx : (w.happen (.exited e)).supervisor =
      ((Supervisor.start.take w.announced).happen (.exited e)).poll := by
    rw [← hs, supervisor_happen h.calm]
  have ha : (w.happen (.exited e)).Attends :=
    attends_happen h (hs ▸ ⟨rfl, rfl, .inl ⟨rfl, rfl, rfl, rfl⟩⟩)
  obtain ⟨ls, hc, hann⟩ := close_of_attends ha
  rw [hx] at hc
  obtain ⟨ho, he⟩ := open_close (s := w.happen (.exited e))
  have hcalm : s.floods = [] := floods_close ha.calm
  have hcc := close_of_ended (s := s.happen (.exited (.signal 9))) (floods_happen.trans hcalm)
    (out_happen.trans ho) (err_happen.trans he)
  rw [supervisor_happen hcalm, hc] at hcc
  have hover := supervisor_afterKill (s := s) (t := .exited e) (by rw [hcc]; rfl)
  refine ⟨hc ▸ rfl, ?_, ?_⟩
  · rw [hover, hcc]
    rfl
  · rw [hover, hcc, hann, announced_happen h.calm]
    change (ls.reverse ++ (w.announced.reverse ++ [])).reverse = _
    simp [Supervisor.Tick.line?]

/-- The output is still open at the deadline, and nothing more comes than what is open. -/
theorem ends_past_deadline (h : w.Attends)
    (hs : w.supervisor = Supervisor.start.take w.announced) :
    let s := (w.happen (.exited e)).happen .deadline
    s.supervisor.isWatching = false ∧
    s.afterKill.supervisor.termination? = some (.exitedPastDeadline e) ∧
    s.afterKill.supervisor.delivered = (s.happen (.exited (.signal 9))).close.announced := by
  intro s
  have hexited : (w.happen (.exited e)).floods = [] := floods_happen.trans h.calm
  have hcalm : s.floods = [] := floods_happen.trans hexited
  have hx : s.supervisor =
      ((((Supervisor.start.take w.announced).happen (.exited e)).poll).happen .deadline).poll := by
    rw [← hs, supervisor_happen hexited, supervisor_happen h.calm]
  have ha : (s.happen (.exited (.signal 9))).Attends := by
    refine ⟨?_, floods_happen.trans hcalm, ?_⟩
    · rw [supervisor_happen hcalm, hx]
      exact ⟨rfl, rfl, .inr ⟨.exitedPastDeadline e, rfl⟩⟩
    · rw [cancelOn_happen, cancelOn_happen, cancelOn_happen]
      exact h.passes
  obtain ⟨ls, hc, hann⟩ := close_of_attends ha
  rw [supervisor_happen hcalm, hx] at hc
  have hover := supervisor_afterKill (s := s) (t := .exitedPastDeadline e) (by rw [hc]; rfl)
  refine ⟨hx ▸ rfl, ?_, ?_⟩
  · rw [hover, hc]
    rfl
  · rw [hover, hc, hann, announced_happen hcalm, announced_happen hexited, announced_happen h.calm]
    change (ls.reverse ++ (w.announced.reverse ++ [])).reverse = _
    simp [Supervisor.Tick.line?]

/-- A schedule at whose end the supervisor returns this exit and has delivered these texts. -/
def EndsWith (e : Exit) (texts : List String) (plan : Schedule) : Prop :=
  ∃ (s : Scene) (now : Nat), plan = s.schedule now false ∧ s.Recorded ∧
    (∃ t, s.supervisor.termination? = some t ∧ t.exit? = some e) ∧
    stdoutTexts s.supervisor.delivered = texts

/-- The texts that a scene has announced or still holds open. -/
def texts (s : Scene) : List String :=
  stdoutTexts s.announced ++ (s.out.rest maxLineBytes).toList.map RawLine.text

theorem play_close {time deadline now : Nat} (h : w.Attends) (hr : w.Recorded)
    (hs : w.supervisor = Supervisor.start.take w.announced) :
    EndsWith e w.texts
      ((w.happen (.exited e)).play now [⟨time, .close⟩, ⟨deadline, .deadline⟩]) := by
  obtain ⟨hstop, hend, hdelivered⟩ := ends_in_time (e := e) h hs
  have hcalm : (w.happen (.exited e)).floods = [] := floods_happen.trans h.calm
  have halone : (w.happen (.exited e)).close.aftermath time [⟨deadline, .deadline⟩] = _ :=
    aftermath_of_alone (floods_close hcalm) (by simp) hend
  refine ⟨_, _, (play_stopped (d := .close) (by simp) hstop).trans halone, ?_⟩
  refine ⟨recorded_afterKill (stable_recorded.close (stable_recorded.happen hr)),
    ⟨_, hend, rfl⟩, ?_⟩
  rw [hdelivered, stdoutTexts_close hcalm, announced_happen h.calm, out_happen]
  simp [texts, Supervisor.Tick.line?]

theorem play_deadline {time deadline now : Nat} (h : w.Attends) (hr : w.Recorded)
    (hs : w.supervisor = Supervisor.start.take w.announced) :
    EndsWith e w.texts
      ((w.happen (.exited e)).play now [⟨deadline, .deadline⟩, ⟨time, .close⟩]) := by
  obtain ⟨hstop, hend, hdelivered⟩ := ends_past_deadline (e := e) h hs
  have hexited : (w.happen (.exited e)).floods = [] := floods_happen.trans h.calm
  have hcalm : ((w.happen (.exited e)).happen .deadline).floods = [] := floods_happen.trans hexited
  have halone : ((w.happen (.exited e)).happen .deadline).aftermath deadline [⟨time, .close⟩] = _ :=
    aftermath_of_alone hcalm (by simp) hend
  refine ⟨_, _, (play_stopped (d := .deadline) (by simp) hstop).trans halone, ?_⟩
  refine ⟨recorded_afterKill (stable_recorded.happen (stable_recorded.happen hr)),
    ⟨_, hend, rfl⟩, ?_⟩
  rw [hdelivered, stdoutTexts_close (floods_happen.trans hcalm), announced_happen hcalm,
    announced_happen hexited, announced_happen h.calm]
  simp [texts, Supervisor.Tick.line?, out_happen]

end Scene

theorem Moment.insertBefore_append {m : Moment} {ms rest : List Moment}
    (h : ∀ n ∈ ms, n.time < m.time) : m.insertBefore (ms ++ rest) = ms ++ m.insertBefore rest := by
  have hd : ∀ n ∈ ms, decide (n.time < m.time) = true := fun n hn => decide_eq_true (h n hn)
  rw [insertBefore, List.takeWhile_append_of_pos hd, List.dropWhile_append_of_pos hd,
    List.append_assoc, insertBefore]

/-- The terms of a caller who only waits. -/
def Terms.patience (deadline : Nat) : Terms := ⟨deadline, none, none, fun _ => false⟩

namespace Life

variable {l : Life} {time deadline : Nat} {e : Exit}

/-- The moments of a process that ends before the deadline. -/
theorem momentsOn_of_exit (halone : l.company = []) (he : l.ending = some (time, e))
    (ht : time < deadline) (hw : ∀ w ∈ l.writes, w.time < deadline) :
    l.momentsOn (.patience deadline) =
      l.writes.map (fun w => ⟨w.time, .write w.stream w.bytes⟩) ++ ⟨time, .exit e⟩ ::
        if max time l.heldUntil < deadline then
          [⟨max time l.heldUntil, .close⟩, ⟨deadline, .deadline⟩]
        else [⟨deadline, .deadline⟩, ⟨max time l.heldUntil, .close⟩] := by
  have hm : l.moments = l.writes.map (fun w => ⟨w.time, .write w.stream w.bytes⟩) ++
      ([⟨time, .exit e⟩] ++ [⟨max time l.heldUntil, .close⟩]) := by
    simp [moments, he]
  have hon : l.momentsOn (.patience deadline) =
      (⟨deadline, .deadline⟩ : Moment).insertBefore l.moments := by
    rw [momentsOn, halone]
    rfl
  rw [hon, hm, Moment.insertBefore_append (by simpa using hw),
    Moment.insertBefore_append (by simpa using ht)]
  congr 2
  by_cases hc : max time l.heldUntil < deadline <;>
    simp only [Moment.insertBefore, List.takeWhile_cons, List.dropWhile_cons, hc, decide_true,
      decide_false, if_true, if_false, List.takeWhile_nil, List.dropWhile_nil, Bool.false_eq_true,
      List.nil_append, List.singleton_append]

/-- A process that ends in time, and has no sessions or floods besides it, is said to have exited,
and all that it and its descendants have written by then is delivered. -/
theorem supervise_of_exit (halone : l.company = []) (he : l.ending = some (time, e))
    (ht : time < deadline) (hw : ∀ w ∈ l.writes, w.time < deadline) :
    let s := l.supervise (.patience deadline)
    (∃ t, s.termination? = some t ∧ t.exit? = some e) ∧
      stdoutTexts s.delivered = forwarded (l.writes.filterMap Write.stdout?) := by
  have hstart : (Scene.start fun _ => false).Attends := ⟨Supervisor.hears_start, rfl, fun _ => rfl⟩
  have htexts := Scene.stdoutTexts_announced (fun _ => false) l.writes
  obtain ⟨ha, ls, hs, hann⟩ := Scene.writeAll_of_attends l.writes hstart
  have hr : ((Scene.start fun _ => false).writeAll l.writes).Recorded :=
    Scene.stable_recorded.writeAll Scene.recorded_start
  have hplay := fun ms => Scene.play_writes l.writes 0 ms hstart rfl
  generalize (Scene.start fun _ => false).writeAll l.writes = w at *
  have hs : w.supervisor = Supervisor.start.take w.announced := by rw [hs, hann]; rfl
  have hx : (w.perform (.exit e)).supervisor.isWatching = true := by
    change (w.happen (.exited e)).supervisor.isWatching = true
    rw [Scene.supervisor_happen ha.calm, hs]
    rfl
  have hends : Scene.EndsWith e w.texts (l.schedule (.patience deadline)) := by
    rw [schedule, momentsOn_of_exit halone he ht hw]
    obtain ⟨now, hplay⟩ := hplay (⟨time, .exit e⟩ :: _)
    change Scene.EndsWith e w.texts ((Scene.start fun _ => false).play 0 _)
    rw [hplay, Scene.play_watching (by simp) hx]
    split
    · exact Scene.play_close ha hr hs
    · exact Scene.play_deadline ha hr hs
  obtain ⟨s, now, hplan, hrec, hend, hdelivered⟩ := hends
  have hsup : l.supervise (.patience deadline) = s.supervisor := by
    rw [supervise, hplan, hrec]
    rfl
  rw [hsup]
  refine ⟨hend, ?_⟩
  rw [hdelivered, ← htexts, Scene.stdoutTexts_close ha.calm]
  rfl

end Life

end HandlerHost.Child
