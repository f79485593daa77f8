import HandlerHost.Proofs.Child.Supervision

/-!
What is collected after the kill. A poll takes a line, if there is one, before it looks at the grace
period. So the grace period bounds only how long is waited for a line: as long as lines keep coming,
collecting goes on.
-/
namespace HandlerHost.Child.Supervisor

open Output (Line)

variable {s s' s'' : Supervisor} {fin : Termination} {ticks more : List Tick} {t : Tick}
  {lines later : List Line}

/-- No line is ready, and none will come or be waited for. -/
structure Exhausted (s : Supervisor) : Prop where
  empty : s.sources.queue = []
  last : s.sources.closed = true ∨ s.sources.graceOver = true

/-- What a tick does while output is collected. A poll that finds a line delivers it, whether or not
the grace period is over. -/
inductive Collects (fin : Termination) (s : Supervisor) : Tick → Supervisor → Prop
  | happen (e : Event) : Collects fin s (.happen e) (s.happen e)
  | deliver {l : Line} {rest : List Line} (hq : s.sources.queue = l :: rest) :
      Collects fin s .poll
        { s with sources := { s.sources with queue := rest }, taken := l :: s.taken }
  | finish (hx : s.Exhausted) : Collects fin s .poll { s with phase := .over fin }
  | wait (hx : ¬ s.Exhausted) (hg : s.sources.graceOver = false) : Collects fin s .poll s

theorem collects_tick (hp : s.phase = .draining fin) : Collects fin s t (s.tick t) := by
  cases t with
  | happen e => exact .happen e
  | poll =>
    have hpoll : s.tick .poll = s.drain fin := by simp [tick, poll, hp]
    rw [hpoll, drain]
    cases hq : s.sources.queue with
    | cons l rest =>
      simp only [receive, hq]
      exact .deliver hq
    | nil =>
      cases hc : s.sources.closed with
      | true =>
        simp only [receive, hq, hc, if_true]
        exact .finish ⟨hq, .inl hc⟩
      | false =>
        simp only [receive, hq, hc, Bool.false_eq_true, if_false]
        split
        · rename_i hg
          exact .finish ⟨hq, .inr hg⟩
        · rename_i hg
          have hg : s.sources.graceOver = false := by simpa using hg
          refine .wait (fun hx => ?_) hg
          rcases hx.last with h | h
          · rw [hc] at h
            cases h
          · rw [hg] at h
            cases h

theorem graceOver_happen {e : Event} (hg : s.sources.graceOver = true) :
    (s.happen e).sources.graceOver = true := by
  cases e <;> simp [happen, Sources.happen, hg]
  split <;> simp [hg]

theorem queue_happen {e : Event} : (s.happen e).sources.queue.length ≤
    s.sources.queue.length + ([.happen e].filterMap Tick.line?).length := by
  cases e <;> simp [happen, Sources.happen, Tick.line?]
  split <;> simp

/-- Some ticks deliver these lines, one a poll at most and none that did not come. Either collecting
has returned, or it goes on, and then every poll after the grace period has delivered one. -/
structure Delivers (fin : Termination) (ticks : List Tick) (lines : List Line)
    (s s' : Supervisor) : Prop where
  delivered : s'.delivered = s.delivered ++ lines
  polls : lines.length ≤ ticks.count .poll
  came : lines.length + s'.sources.queue.length ≤
    s.sources.queue.length + (ticks.filterMap Tick.line?).length
  goes_on : s'.phase = .over fin ∨ s.phase = .draining fin ∧ s'.phase = .draining fin ∧
    (s.sources.graceOver = true →
      s'.sources.graceOver = true ∧ lines.length = ticks.count .poll)

theorem Delivers.phase (h : Delivers fin ticks lines s s') :
    s'.phase = .over fin ∨ s'.phase = .draining fin :=
  h.goes_on.imp_right fun h => h.2.1

theorem Delivers.trans (h : Delivers fin ticks lines s s') (h' : Delivers fin more later s' s'') :
    Delivers fin (ticks ++ more) (lines ++ later) s s'' where
  delivered := by rw [h'.delivered, h.delivered, List.append_assoc]
  polls := by
    have hp := h.polls
    have hp' := h'.polls
    rw [List.length_append, List.count_append]
    omega
  came := by
    have hc := h.came
    have hc' := h'.came
    rw [List.length_append, List.filterMap_append, List.length_append]
    omega
  goes_on := by
    rcases h'.goes_on with hover | ⟨hp', hp'', hg'⟩
    · exact .inl hover
    · rcases h.goes_on with hover | ⟨hp, -, hg⟩
      · rw [hp'] at hover
        cases hover
      · refine .inr ⟨hp, hp'', fun hgrace => ?_⟩
        obtain ⟨hgrace, hlength⟩ := hg hgrace
        obtain ⟨hgrace, hlength'⟩ := hg' hgrace
        exact ⟨hgrace, by rw [List.length_append, List.count_append, hlength, hlength']⟩

theorem delivers_happen {e : Event} (hp : s.phase = .over fin ∨ s.phase = .draining fin) :
    Delivers fin [.happen e] [] s (s.happen e) where
  delivered := (List.append_nil _).symm
  polls := Nat.zero_le _
  came := by
    rw [List.length_nil, Nat.zero_add]
    exact queue_happen
  goes_on := hp.imp_right fun hp => ⟨hp, hp, fun hg => ⟨graceOver_happen hg, rfl⟩⟩

/-- Nothing is delivered after the return. -/
theorem delivers_over (hp : s.phase = .over fin) : Delivers fin [.poll] [] s s.poll := by
  have hpoll : s.poll = s := by simp [poll, hp]
  rw [hpoll]
  exact ⟨(List.append_nil _).symm, Nat.zero_le _, by simp, .inl hp⟩

theorem delivers_tick (hp : s.phase = .over fin ∨ s.phase = .draining fin) :
    ∃ lines, Delivers fin [t] lines s (s.tick t) := by
  rcases hp with hover | hopen
  · cases t with
    | happen e => exact ⟨[], delivers_happen (.inl hover)⟩
    | poll => exact ⟨[], delivers_over hover⟩
  · have hstep : Collects fin s t (s.tick t) := collects_tick hopen
    generalize s.tick t = s' at hstep
    cases hstep with
    | happen e => exact ⟨[], delivers_happen (.inr hopen)⟩
    | @deliver l rest hq =>
      refine ⟨[l], by simp [delivered], by simp, ?_, .inr ⟨hopen, hopen, fun hg => ⟨hg, rfl⟩⟩⟩
      simp only [hq, List.length_cons, List.length_nil]
      omega
    | finish hx => exact ⟨[], by simp [delivered], by simp, by simp, .inl rfl⟩
    | wait hx hg =>
      refine ⟨[], by simp, by simp, by simp, .inr ⟨hopen, hopen, fun hg' => ?_⟩⟩
      rw [hg] at hg'
      cases hg'

theorem delivers_run (hp : s.phase = .over fin ∨ s.phase = .draining fin) :
    ∃ lines, Delivers fin ticks lines s (s.run ticks) := by
  induction ticks using List.reverseRecOn with
  | nil =>
    refine ⟨[], (List.append_nil _).symm, Nat.zero_le _, by simp [run], ?_⟩
    exact hp.imp_right fun hp => ⟨hp, hp, fun hg => ⟨hg, rfl⟩⟩
  | append_singleton ticks t ih =>
    obtain ⟨lines, h⟩ := ih
    obtain ⟨later, h'⟩ : ∃ later, Delivers fin [t] later (s.run ticks) ((s.run ticks).tick t) :=
      delivers_tick h.phase
    rw [run_concat]
    exact ⟨lines ++ later, h.trans h'⟩

theorem over_run (hp : s.phase = .over fin) : (s.run ticks).phase = .over fin := by
  obtain ⟨lines, h⟩ : ∃ lines, Delivers fin ticks lines s (s.run ticks) := delivers_run (.inl hp)
  rcases h.goes_on with hover | ⟨hopen, -⟩
  · exact hover
  · rw [hp] at hopen
    cases hopen

/-- Collecting ends with the first poll that finds no line although the streams have ended or the
grace period is over. -/
theorem over_iff_exhausted (hp : s.phase = .draining fin) :
    (s.run ticks).phase = .over fin ↔
      ∃ pre post, ticks = pre ++ .poll :: post ∧ (s.run pre).Exhausted := by
  constructor
  · intro h
    induction ticks generalizing s with
    | nil =>
      change s.phase = _ at h
      rw [hp] at h
      cases h
    | cons t ticks ih =>
      have hstep : Collects fin s t (s.tick t) := collects_tick hp
      have hlater (hp' : (s.tick t).phase = .draining fin) :
          ∃ pre post, t :: ticks = pre ++ .poll :: post ∧ (s.run pre).Exhausted := by
        obtain ⟨pre, post, rfl, hx⟩ := ih hp' h
        exact ⟨t :: pre, post, rfl, hx⟩
      generalize s.tick t = s' at hstep hlater
      cases hstep with
      | happen e => exact hlater hp
      | deliver hq => exact hlater hp
      | finish hx => exact ⟨[], ticks, rfl, hx⟩
      | wait hx hg => exact hlater hp
  · rintro ⟨pre, post, rfl, hx⟩
    rw [run_append]
    obtain ⟨lines, h⟩ : ∃ lines, Delivers fin pre lines s (s.run pre) := delivers_run (.inr hp)
    rcases h.phase with hover | hpre
    · exact over_run hover
    · have hstep : Collects fin (s.run pre) .poll (s.run pre).poll :=
        collects_tick (t := .poll) hpre
      change (((s.run pre).poll).run post).phase = _
      generalize (s.run pre).poll = s' at hstep
      cases hstep with
      | deliver hq =>
        rw [hx.empty] at hq
        cases hq
      | finish _ => exact over_run rfl
      | wait hx' _ => exact absurd hx hx'

theorem termination_iff_over : s.termination? = some fin ↔ s.phase = .over fin := by
  unfold termination?
  cases s.phase <;> simp

/-- For every order of events and polls after the kill: collecting either goes on or has returned,
and it returns at the first poll that finds no line although the streams have ended or the grace
period is over. Each poll delivers one line at most, and no more lines are delivered than were left
or came. While collecting goes on after the grace period, every poll delivers a line, however long
that is. -/
theorem collecting_outlasts_grace (hp : s.phase = .draining fin) :
    let after := s.run ticks
    (after.termination? = some fin ∨ after.phase = .draining fin) ∧
    (after.termination? = some fin ↔
      ∃ pre post, ticks = pre ++ .poll :: post ∧ (s.run pre).Exhausted) ∧
    ∃ lines, after.delivered = s.delivered ++ lines ∧
      lines.length ≤ ticks.count .poll ∧
      lines.length ≤ s.sources.queue.length + (ticks.filterMap Tick.line?).length ∧
      (s.sources.graceOver = true → after.phase = .draining fin →
        lines.length = ticks.count .poll) := by
  intro after
  obtain ⟨lines, h⟩ : ∃ lines, Delivers fin ticks lines s after := delivers_run (.inr hp)
  rw [termination_iff_over]
  refine ⟨h.phase, over_iff_exhausted hp, lines, h.delivered, h.polls, ?_, ?_⟩
  · exact Nat.le_trans (Nat.le_add_right _ _) h.came
  · intro hg hopen
    rcases h.goes_on with hover | ⟨-, -, hall⟩
    · rw [hopen] at hover
      cases hover
    · exact (hall hg).2

/-- Two lines come after the grace period, and then none. -/
theorem collecting_outlasts_grace_ended :
    let s := start.run [.happen .deadline, .poll, .happen (.exited (.signal 9)), .poll,
      .happen .graceOver]
    let ticks : List Tick := [.happen (.line (.stdout "a")), .poll, .happen (.line (.stdout "b")),
      .poll, .poll]
    s.phase = .draining .timedOut ∧ (s.run ticks).termination? = some .timedOut := by
  intro s ticks
  have hp : s.phase = .draining .timedOut := rfl
  exact ⟨hp, (collecting_outlasts_grace hp).2.1.mpr ⟨ticks.take 4, [], rfl, ⟨rfl, .inr rfl⟩⟩⟩

/-- Polls that find the grace period over deliver lines, and none of them returns. -/
theorem collects_after_grace :
    let s := start.run [.happen .deadline, .poll, .happen (.exited (.signal 9)), .poll,
      .happen .graceOver]
    let ticks : List Tick := [.happen (.line (.stdout "a")), .poll, .happen (.line (.stdout "b")),
      .poll]
    s.phase = .draining .timedOut ∧ s.sources.graceOver = true ∧
      (s.run ticks).delivered = [.stdout "a", .stdout "b"] ∧
      (s.run ticks).termination? = none := by
  decide

end HandlerHost.Child.Supervisor
