import HandlerHost.Proofs.Child.Announced

/-!
What a supervisor delivers and how it ends, for every order in which things happen and are polled
for. Lines go from the queue to the reader one by one; the first poll that finds a cancellation or
the deadline settles how watching ends, and the process group is killed at that moment.
-/
namespace HandlerHost.Child.Supervisor

open Output (Line)

variable {s s' : Supervisor} {ticks more pre post : List Tick} {t : Tick} {e : Exit} {l : Line}
  {rest : List Line} {fin : Termination}

def Tick.exit? : Tick → Option Exit
  | .happen (.exited e) => some e
  | _ => none

/-- The lines sent before the streams ended, in order. -/
def sent (ticks : List Tick) : List Line :=
  (ticks.takeWhile (· != .happen .closed)).filterMap Tick.line?

/-- A process ends once: what else is told of its end counts for nothing. -/
def exitOf? (ticks : List Tick) : Option Exit := ticks.findSome? Tick.exit?

/-- How watching has ended, whether or not all has been collected. -/
def verdict? (s : Supervisor) : Option Termination :=
  match s.phase with
  | .watching => none
  | .killing t => some t
  | .draining t => some t
  | .over t => some t

/-- The output has something to tell: a line, or its end. -/
def HasOutput (s : Supervisor) : Prop :=
  s.streamsOpen = true ∧ (s.sources.queue ≠ [] ∨ s.sources.closed = true)

/-- What a poll does: it stops at an interruption, delivers a line, notes the end of the streams or
of the process, waits for the killed process, or comes to an end. -/
inductive Polled (s : Supervisor) : Supervisor → Prop
  | cancel (hp : s.phase = .watching) (hc : s.sources.cancelled = true) :
      Polled s (s.stop .cancelled)
  | deadline (hp : s.phase = .watching) (hc : s.sources.cancelled = false)
      (hd : s.sources.due = true) : Polled s (s.stop s.atDeadline)
  | deliver {l : Line} {rest : List Line}
      (hp : s.phase = .watching ∧ s.streamsOpen = true ∨ ∃ t, s.phase = .draining t)
      (hq : s.sources.queue = l :: rest) :
      Polled s { s with sources := { s.sources with queue := rest }, taken := l :: s.taken }
  | close (hp : s.phase = .watching) (ho : s.streamsOpen = true) (hq : s.sources.queue = [])
      (hc : s.sources.closed = true) : Polled s { s with streamsOpen := false }.settle
  | observe (hp : s.phase = .watching) (hn : ¬ s.HasOutput) : Polled s s.observeExit.settle
  | reap {t : Termination} (hp : s.phase = .killing t) : Polled s (s.reap t)
  | finish {t : Termination} (hp : s.phase = .draining t) : Polled s { s with phase := .over t }
  | idle (hp : s.phase ≠ .watching) : Polled s s

theorem polled_watch (hp : s.phase = .watching) : Polled s s.watch := by
  unfold watch
  split
  · rename_i hc
    exact .cancel hp hc
  · rename_i hc
    have hc : s.sources.cancelled = false := by simpa using hc
    split
    · rename_i hd
      exact .deadline hp hc hd
    · split
      · rename_i ho
        cases hq : s.sources.queue with
        | cons l rest =>
          simp only [receive, hq]
          exact .deliver (.inl ⟨hp, ho⟩) hq
        | nil =>
          cases hc : s.sources.closed with
          | true =>
            simp only [receive, hq, hc, if_true]
            exact .close hp ho hq hc
          | false =>
            simp only [receive, hq, hc]
            exact .observe hp (by simp [HasOutput, hq, hc])
      · rename_i ho
        exact .observe hp fun h => ho h.1

theorem polled_drain {t : Termination} (hp : s.phase = .draining t) : Polled s (s.drain t) := by
  unfold drain
  cases hq : s.sources.queue with
  | cons l rest =>
    simp only [receive, hq]
    exact .deliver (.inr ⟨t, hp⟩) hq
  | nil =>
    have hidle : Polled s s := .idle (by simp [hp])
    cases hc : s.sources.closed with
    | true =>
      simp only [receive, hq, hc, if_true]
      exact .finish hp
    | false =>
      simp only [receive, hq, hc, Bool.false_eq_true, if_false]
      split
      · exact .finish hp
      · exact hidle

theorem polled : Polled s s.poll := by
  unfold poll
  split
  · rename_i hp
    exact polled_watch hp
  · rename_i hp
    exact .reap hp
  · rename_i hp
    exact polled_drain hp
  · rename_i hp
    exact .idle (by simp [hp])

/-- What a supervisor knows after some ticks. Lines are delivered or wait in the queue; what it has
noted has happened; its group has been killed once watching is over, and only then; and nothing is
collected when all has been delivered. -/
structure Follows (ticks : List Tick) (s : Supervisor) : Prop where
  lines : s.delivered ++ s.sources.queue = sent ticks
  closed : s.sources.closed = true ↔ .happen .closed ∈ ticks
  cancelled : s.sources.cancelled = true ↔ .happen .cancelled ∈ ticks
  due : s.sources.due = true ↔ .happen .deadline ∈ ticks
  exit : s.sources.exit = exitOf? ticks
  noted : ∀ e, s.exit = some e → s.sources.exit = some e
  ended : s.streamsOpen = false → s.sources.closed = true ∧ s.sources.queue = []
  spared : s.phase = .watching → s.killed = false ∧ s.signals = 0
  killed : s.phase ≠ .watching → s.killed = true ∧ s.signals = 1
  complete : ∀ e, s.verdict? = some (.exited e) → s.streamsOpen = false ∧ s.exit = some e
  direct : ∀ e, s.phase ≠ .draining (.exited e)

theorem run_concat : s.run (ticks ++ [t]) = (s.run ticks).tick t := by simp [run]

theorem run_append : s.run (ticks ++ more) = (s.run ticks).run more := by simp [run]

theorem sent_concat :
    sent (ticks ++ [t]) =
      sent ticks ++ if .happen .closed ∈ ticks then [] else t.line?.toList := by
  induction ticks with
  | nil =>
    by_cases h : t = .happen .closed
    · subst h
      rfl
    · simp only [sent, List.nil_append, List.takeWhile_cons, bne_iff_ne, ne_eq, h,
        not_false_eq_true, if_true, List.takeWhile_nil, List.filterMap_nil, List.not_mem_nil,
        if_false]
      cases hl : t.line? <;> simp [hl]
  | cons u ticks ih =>
    by_cases h : u = .happen .closed
    · subst h
      simp [sent]
    · have hmem : (.happen .closed ∈ u :: ticks) = (.happen .closed ∈ ticks) := by
        simp [Ne.symm h]
      have hu : (u != .happen .closed) = true := by simpa using h
      simp only [sent, List.cons_append, List.takeWhile_cons, hu, if_true, hmem,
        List.filterMap_cons] at ih ⊢
      cases u.line? <;> simp [ih]

theorem exitOf?_concat : exitOf? (ticks ++ [t]) = (exitOf? ticks).or t.exit? := by
  rw [exitOf?, exitOf?, List.findSome?_append, List.findSome?_singleton]

theorem follows_start : Follows [] start where
  lines := rfl
  closed := by simp [start, Sources.quiet]
  cancelled := by simp [start, Sources.quiet]
  due := by simp [start, Sources.quiet]
  exit := rfl
  noted := by simp [start]
  ended := by simp [start]
  spared := by simp [start]
  killed := by simp [start]
  complete := by simp [start, verdict?]
  direct := by simp [start]

/-- An event adds to what has happened and to nothing else. -/
theorem follows_happen {e : Event} (h : Follows ticks s) :
    Follows (ticks ++ [.happen e]) (s.happen e) where
  lines := by
    rw [sent_concat, ← h.lines]
    by_cases hc : s.sources.closed = true
    · have hm := h.closed.mp hc
      cases e <;> simp [happen, Sources.happen, delivered, hc, hm]
    · have hm : .happen .closed ∉ ticks := fun hm => hc (h.closed.mpr hm)
      cases e <;> simp [happen, Sources.happen, delivered, hc, hm, Tick.line?]
  closed := by
    have hc := h.closed
    cases e <;> simp [happen, Sources.happen, hc]
    split <;> simp [hc]
  cancelled := by
    have hc := h.cancelled
    cases e <;> simp [happen, Sources.happen, hc]
    split <;> simp [hc]
  due := by
    have hd := h.due
    cases e <;> simp [happen, Sources.happen, hd]
    split <;> simp [hd]
  exit := by
    rw [exitOf?_concat, ← h.exit]
    cases e <;> simp [happen, Sources.happen, Tick.exit?]
    split <;> rfl
  noted := by
    intro x hx
    have hn := h.noted x hx
    cases e <;> simp [happen, Sources.happen, hn]
    split <;> simp [hn]
  ended := by
    intro ho
    obtain ⟨hc, hq⟩ := h.ended ho
    cases e <;> simp [happen, Sources.happen, hc, hq]
  spared := h.spared
  killed := h.killed
  complete := h.complete
  direct := h.direct

/-- Looking is no event. -/
theorem follows_look (h : Follows ticks s) : Follows (ticks ++ [.poll]) s where
  lines := by
    rw [sent_concat, h.lines]
    split <;> simp [Tick.line?]
  closed := by simp [h.closed]
  cancelled := by simp [h.cancelled]
  due := by simp [h.due]
  exit := by
    rw [exitOf?_concat, h.exit]
    simp [Tick.exit?]
  noted := h.noted
  ended := h.ended
  spared := h.spared
  killed := h.killed
  complete := h.complete
  direct := h.direct

theorem follows_stop (h : Follows ticks s) (hp : s.phase = .watching)
    (ht : ∀ e, fin = .exited e → s.streamsOpen = false ∧ s.exit = some e) :
    Follows ticks (s.stop fin) := by
  obtain ⟨hk, hs⟩ := h.spared hp
  have hstop : s.stop fin =
      { s with killed := true, signals := s.signals + 1, phase := .killing fin } := by
    simp [stop, signalGroup, hk]
  rw [hstop]
  refine { h with spared := ?_, killed := ?_, complete := ?_, direct := ?_ }
  · simp
  · simp [hs]
  · intro e he
    exact ht e (Option.some.inj he)
  · simp

theorem follows_settle (h : Follows ticks s) (hp : s.phase = .watching) :
    Follows ticks s.settle := by
  unfold settle
  split
  · rename_i ho he
    refine follows_stop h hp ?_
    rintro e' ⟨⟩
    exact ⟨ho, he⟩
  · exact h

theorem follows_reap (h : Follows ticks s) (hp : s.phase = .killing fin) :
    Follows ticks (s.reap fin) := by
  have hk := h.killed (by simp [hp])
  have hc := h.complete
  simp only [verdict?, hp] at hc
  unfold reap
  split
  · exact h
  · exact { h with spared := by simp, killed := fun _ => hk, complete := hc, direct := by simp }
  · rename_i hne
    refine { h with spared := by simp, killed := fun _ => hk, complete := hc, direct := ?_ }
    intro e he
    exact hne e (Phase.draining.inj he)

theorem follows_polled (h : Follows ticks s) (hs : Polled s s') : Follows ticks s' := by
  cases hs with
  | cancel hp hc => exact follows_stop h hp (by simp)
  | deadline hp hc hd =>
    refine follows_stop h hp ?_
    intro e he
    unfold atDeadline at he
    split at he <;> cases he
  | deliver hp hq =>
    refine { h with lines := ?_, ended := ?_ }
    · rw [← h.lines, hq]
      simp [delivered]
    · intro ho
      have hempty := (h.ended ho).2
      rw [hq] at hempty
      cases hempty
  | close hp _ hq hc =>
    refine follows_settle { h with ended := fun _ => ⟨hc, hq⟩, complete := ?_ } hp
    simp [verdict?, hp]
  | observe hp _ =>
    refine follows_settle { h with noted := ?_, complete := ?_ } hp
    · intro e he
      cases hx : s.exit with
      | none => simpa [observeExit, hx] using he
      | some x =>
        have hxe : x = e := by simpa [observeExit, hx] using he
        exact hxe ▸ h.noted x hx
    · simp [verdict?, observeExit, hp]
  | reap hp => exact follows_reap h hp
  | finish hp =>
    have hk := h.killed (by simp [hp])
    have hc := h.complete
    simp only [verdict?, hp] at hc
    exact { h with spared := by simp, killed := fun _ => hk, complete := hc, direct := by simp }
  | idle hp => exact h

theorem follows_tick (h : Follows ticks s) : Follows (ticks ++ [t]) (s.tick t) := by
  cases t with
  | happen e => exact follows_happen h
  | poll => exact follows_polled (follows_look h) polled

theorem follows_run (ticks : List Tick) : Follows ticks (start.run ticks) := by
  induction ticks using List.reverseRecOn with
  | nil => exact follows_start
  | append_singleton ticks t ih =>
    rw [run_concat]
    exact follows_tick ih

/-- What settles how watching ends is never taken back. -/
theorem verdict_tick (h : s.verdict? = some fin) : (s.tick t).verdict? = some fin := by
  cases t with
  | happen e => exact h
  | poll =>
    have hs : Polled s s.poll := polled
    change s.poll.verdict? = some fin
    generalize s.poll = s' at hs
    cases hs with
    | cancel hp _ => simp [verdict?, hp] at h
    | deadline hp _ _ => simp [verdict?, hp] at h
    | deliver _ _ => exact h
    | close hp _ _ _ => simp [verdict?, hp] at h
    | observe hp _ => simp [verdict?, hp] at h
    | reap hp =>
      simp only [verdict?, hp] at h
      cases h
      unfold reap
      split <;> simp [verdict?, hp]
    | finish hp =>
      simp only [verdict?, hp] at h
      exact h
    | idle hp => exact h

theorem verdict_run (h : s.verdict? = some fin) : (s.run ticks).verdict? = some fin := by
  induction ticks generalizing s with
  | nil => exact h
  | cons t ticks ih => exact ih (verdict_tick h)

theorem verdict_of_termination (h : s.termination? = some fin) : s.verdict? = some fin := by
  unfold termination? at h
  split at h
  · rename_i hp
    simpa [verdict?, hp] using h
  · cases h

theorem verdict_stop : (s.stop fin).verdict? = some fin := rfl

theorem watching_iff : s.isWatching = true ↔ s.phase = .watching := by simp [isWatching]

/-- Stopping touches nothing but the process. -/
theorem kept_stop : (s.stop fin).sources = s.sources ∧ (s.stop fin).streamsOpen = s.streamsOpen ∧
    (s.stop fin).exit = s.exit ∧ (s.stop fin).delivered = s.delivered := by
  unfold stop signalGroup delivered
  split <;> exact ⟨rfl, rfl, rfl, rfl⟩

theorem kept_settle : s.settle.sources = s.sources ∧ s.settle.streamsOpen = s.streamsOpen ∧
    s.settle.exit = s.exit ∧ s.settle.delivered = s.delivered := by
  unfold settle
  split
  · exact kept_stop
  · exact ⟨rfl, rfl, rfl, rfl⟩

theorem verdict_settle (hp : s.phase = .watching) :
    s.settle.verdict? = none ∨ ∃ e, s.settle.verdict? = some (.exited e) := by
  unfold settle
  split
  · exact .inr ⟨_, rfl⟩
  · exact .inl (by simp [verdict?, hp])

theorem verdict_settle_iff (hp : s.phase = .watching) :
    s.settle.verdict? = some (.exited e) ↔ s.streamsOpen = false ∧ s.exit = some e := by
  unfold settle
  split
  · rename_i ho hx
    simp [verdict_stop, ho, hx]
  · rename_i hn
    have hnone : s.verdict? = none := by simp [verdict?, hp]
    simp only [hnone, reduceCtorEq, false_iff]
    exact fun h => hn e h.1 h.2

theorem watching_of_unsettled (h : s.verdict? = none) : s.phase = .watching := by
  unfold verdict? at h
  split at h
  · assumption
  · cases h
  · cases h
  · cases h

/-- Cancellation comes before everything else. -/
theorem poll_cancelled (hp : s.phase = .watching) (hc : s.sources.cancelled = true) :
    s.poll.verdict? = some .cancelled := by
  have hw : s.poll = s.watch := by simp [poll, hp]
  rw [hw, watch, if_pos hc]
  exact verdict_stop

/-- At the deadline it counts whether the process has been seen to exit. -/
theorem poll_due (hp : s.phase = .watching) (hc : s.sources.cancelled = false)
    (hd : s.sources.due = true) :
    (∀ e, s.exit = some e → s.poll.verdict? = some (.exitedPastDeadline e)) ∧
      (s.exit = none → s.poll.verdict? = some .timedOut) := by
  have hw : s.poll = s.watch := by simp [poll, hp]
  rw [hw, watch, if_neg (by simp [hc]), if_pos hd]
  refine ⟨fun e he => ?_, fun he => ?_⟩
  · simp only [atDeadline, he]
    exact verdict_stop
  · simp only [atDeadline, he]
    exact verdict_stop

/-- Without an interruption a poll takes from the output first, and looks at the process only when
the output has nothing to tell. -/
theorem poll_uninterrupted (hp : s.phase = .watching) (hc : s.sources.cancelled = false)
    (hd : s.sources.due = false) :
    (s.poll.verdict? = none ∨ ∃ e, s.poll.verdict? = some (.exited e)) ∧
      (s.HasOutput → s.poll.exit = s.exit) ∧
      (¬ s.HasOutput → s.poll.exit = s.exit.or s.sources.exit) := by
  have hs : Polled s s.poll := polled
  generalize s.poll = s' at hs ⊢
  cases hs with
  | cancel _ h => simp [hc] at h
  | deadline _ _ h => simp [hd] at h
  | deliver hq' hq =>
    have ho : s.streamsOpen = true := by simpa [hp] using hq'
    exact ⟨.inl (by simp [verdict?, hp]), fun _ => rfl, fun h => (h ⟨ho, .inl (by simp [hq])⟩).elim⟩
  | close _ ho hq hx =>
    exact ⟨verdict_settle hp, fun _ => kept_settle.2.2.1, fun h => (h ⟨ho, .inr hx⟩).elim⟩
  | observe _ hn => exact ⟨verdict_settle hp, fun h => (hn h).elim, fun _ => kept_settle.2.2.1⟩
  | reap h => simp [hp] at h
  | finish h => simp [hp] at h
  | idle h => exact (h hp).elim

/-- Without an interruption a poll delivers the line in front, notes the end of the output when no
line is left, and finds that all has ended as soon as both ends are known. -/
theorem poll_advances (hp : s.phase = .watching) (hc : s.sources.cancelled = false)
    (hd : s.sources.due = false) :
    (s.streamsOpen = true → s.poll.delivered = s.delivered ++ s.sources.queue.take 1) ∧
      (s.streamsOpen = false → s.poll.delivered = s.delivered) ∧
      (s.poll.streamsOpen = false ↔
        s.streamsOpen = false ∨ s.sources.queue = [] ∧ s.sources.closed = true) ∧
      ∀ e, s.poll.verdict? = some (.exited e) ↔
        s.poll.streamsOpen = false ∧ s.poll.exit = some e := by
  have hs : Polled s s.poll := polled
  generalize s.poll = s' at hs ⊢
  cases hs with
  | cancel _ h => simp [hc] at h
  | deadline _ _ h => simp [hd] at h
  | deliver hq' hq =>
    have ho : s.streamsOpen = true := by simpa [hp] using hq'
    simp [delivered, hq, ho, verdict?, hp]
  | close _ ho hq hx =>
    have hclosed : ({ s with streamsOpen := false } : Supervisor).phase = .watching := hp
    obtain ⟨-, hopen, hexit, hdelivered⟩ := kept_settle (s := { s with streamsOpen := false })
    rw [hdelivered, hopen, hexit]
    refine ⟨fun _ => by simp [hq, delivered], fun h => by simp [ho] at h, by simp [hq, hx], ?_⟩
    exact fun e => verdict_settle_iff hclosed
  | observe _ hn =>
    have hobserve : s.observeExit.phase = .watching := hp
    obtain ⟨-, hopen, hexit, hdelivered⟩ := kept_settle (s := s.observeExit)
    rw [hdelivered, hopen, hexit]
    refine ⟨fun ho => ?_, fun _ => rfl, ?_, fun e => verdict_settle_iff hobserve⟩
    · have hq : s.sources.queue = [] := by
        by_contra hq
        exact hn ⟨ho, .inl hq⟩
      simp [hq, delivered, observeExit]
    · refine ⟨.inl, fun h => h.elim id fun h => ?_⟩
      cases ho : s.streamsOpen with
      | false => exact ho
      | true => exact (hn ⟨ho, .inr h.2⟩).elim
  | reap h => simp [hp] at h
  | finish h => simp [hp] at h
  | idle h => exact (h hp).elim

theorem termination_over (h : s.phase = .over fin) : (s.run ticks).termination? = some fin := by
  induction ticks generalizing s with
  | nil => simp [run, termination?, h]
  | cons t ticks ih =>
    refine ih (s := s.tick t) ?_
    cases t with
    | happen e => exact h
    | poll => simp [tick, poll, h]

/-- When all has been delivered there is nothing to collect: the next poll returns. -/
theorem returns_exited (h : Follows ticks s) (hv : s.verdict? = some (.exited e)) :
    (s.run (.poll :: more)).termination? = some (.exited e) := by
  have hx := (h.complete e hv).2
  unfold verdict? at hv
  split at hv
  · cases hv
  · rename_i hp
    cases hv
    have hover : s.poll.phase = .over (.exited e) := by simp [poll, hp, reap, hx]
    exact termination_over (s := s.poll) hover
  · rename_i hp
    cases hv
    exact (h.direct e hp).elim
  · rename_i hp
    cases hv
    exact termination_over hp

/-- The killed process has ended, and what is left of the output is collected or has been. -/
def Collecting (fin : Termination) (s : Supervisor) : Prop :=
  s.phase = .draining fin ∨ s.phase = .over fin

theorem collecting_poll (h : Collecting fin s) : Collecting fin s.poll := by
  rcases h with hp | hp
  · have hpoll : s.poll = s.drain fin := by simp [poll, hp]
    rw [hpoll]
    cases hq : s.sources.queue with
    | cons l rest => exact .inl (by simp [drain, receive, hq, hp])
    | nil =>
      cases hx : s.sources.closed with
      | true => exact .inr (by simp [drain, receive, hq, hx])
      | false =>
        cases hg : s.sources.graceOver with
        | true => exact .inr (by simp [drain, receive, hq, hx, hg])
        | false => exact .inl (by simp [drain, receive, hq, hx, hg, hp])
  · exact .inr (by simp [poll, hp])

theorem collecting_tick (h : Collecting fin s) : Collecting fin (s.tick t) := by
  cases t with
  | happen e => exact h
  | poll => exact collecting_poll h

/-- Once watching has ended, collecting begins when the killed process ends. -/
theorem collecting_exited (e : Exit) (h : s.verdict? = some fin) :
    Collecting fin (s.happen (.exited e)).poll := by
  unfold verdict? at h
  split at h
  · cases h
  · rename_i t hp
    cases h
    have hpoll : (s.happen (.exited e)).poll = (s.happen (.exited e)).reap fin := by
      have hp' : (s.happen (.exited e)).phase = .killing fin := hp
      simp [poll, hp']
    have hx :
        ((s.happen (.exited e)).exit.or (s.happen (.exited e)).sources.exit).isSome = true := by
      simp [happen, Sources.happen]
    obtain ⟨x, hx⟩ := Option.isSome_iff_exists.mp hx
    rw [hpoll]
    unfold reap
    rw [hx]
    cases fin with
    | exited e' => exact .inr rfl
    | _ => exact .inl rfl
  · rename_i t hp
    cases h
    exact collecting_poll (s := s.happen (.exited e)) (.inl hp)
  · rename_i t hp
    cases h
    exact collecting_poll (s := s.happen (.exited e)) (.inr hp)

/-- When the output has ended or the grace period is over, collecting ends as soon as the queue is
empty. -/
theorem termination_drained {n : Nat} (hp : Collecting fin s)
    (hg : s.sources.closed = true ∨ s.sources.graceOver = true) (hn : s.sources.queue.length < n) :
    (s.run (List.replicate n .poll)).termination? = some fin := by
  induction n generalizing s with
  | zero => omega
  | succ n ih =>
    rcases hp with hp | hp
    · have hrun : s.run (List.replicate (n + 1) .poll) = s.poll.run (List.replicate n .poll) := rfl
      have hpoll : s.poll = s.drain fin := by simp [poll, hp]
      rw [hrun, hpoll]
      cases hq : s.sources.queue with
      | cons l rest =>
        simp only [drain, receive, hq]
        rw [hq, List.length_cons] at hn
        exact ih (.inl hp) hg (by simpa using Nat.lt_of_succ_lt_succ hn)
      | nil =>
        have hover : (s.drain fin).phase = .over fin := by
          cases hx : s.sources.closed with
          | true => simp [drain, receive, hq, hx]
          | false =>
            have hg : s.sources.graceOver = true := hg.resolve_left (by simp [hx])
            simp [drain, receive, hq, hx, hg]
        exact termination_over hover
    · exact termination_over hp

theorem queue_polled (h : Polled s s') : s'.sources.queue.length ≤ s.sources.queue.length := by
  cases h with
  | cancel => exact Nat.le_of_eq (by rw [kept_stop.1])
  | deadline => exact Nat.le_of_eq (by rw [kept_stop.1])
  | deliver _ hq => simp [hq]
  | close => exact Nat.le_of_eq (by rw [kept_settle.1])
  | observe => exact Nat.le_of_eq (by rw [kept_settle.1, observeExit])
  | reap =>
    unfold reap
    split <;> exact Nat.le_refl _
  | finish => exact Nat.le_refl _
  | idle => exact Nat.le_refl _

/-- Once the killed process has ended and the grace period is over, what was settled is returned. -/
theorem termination_of_verdict {n : Nat} (e : Exit) (h : s.verdict? = some fin)
    (hn : s.sources.queue.length < n) :
    (s.run (.happen (.exited e) :: .poll :: .happen .graceOver ::
      List.replicate n .poll)).termination? = some fin := by
  have hq : (s.happen (.exited e)).poll.sources.queue.length ≤ s.sources.queue.length :=
    queue_polled (s := s.happen (.exited e)) polled
  exact termination_drained (s := (s.happen (.exited e)).poll.happen .graceOver)
    (collecting_exited e h) (.inr rfl) (Nat.lt_of_le_of_lt hq hn)

/-- The deadline settles the matter at the next poll, unless that was settled before. -/
theorem verdict_deadline (s : Supervisor) : ∃ t, (s.happen .deadline).poll.verdict? = some t := by
  cases hv : s.verdict? with
  | some t => exact ⟨t, verdict_tick (t := .poll) (verdict_tick (t := .happen .deadline) hv)⟩
  | none =>
    have hp : (s.happen .deadline).phase = .watching := watching_of_unsettled hv
    cases hc : (s.happen .deadline).sources.cancelled with
    | true => exact ⟨_, poll_cancelled hp hc⟩
    | false =>
      obtain ⟨hexited, htimedOut⟩ := poll_due hp hc rfl
      cases hx : (s.happen .deadline).exit with
      | some e => exact ⟨_, hexited e hx⟩
      | none => exact ⟨_, htimedOut hx⟩

/-- Watching comes to an end: the deadline comes, the killed process ends, the grace period is over
and polls go on. -/
def closing (e : Exit) (n : Nat) : List Tick :=
  .happen .deadline :: .poll :: .happen (.exited e) :: .poll :: .happen .graceOver ::
    List.replicate n .poll

theorem termination_closing {n : Nat} (e : Exit) (hn : s.sources.queue.length < n) :
    ∃ t, (s.run (closing e n)).termination? = some t := by
  obtain ⟨t, ht⟩ := verdict_deadline s
  have hq : (s.happen .deadline).poll.sources.queue.length ≤ s.sources.queue.length :=
    queue_polled (s := s.happen .deadline) polled
  exact ⟨t, termination_of_verdict e ht (Nat.lt_of_le_of_lt hq hn)⟩

/-- The queue holds what has been sent and has not been delivered. -/
theorem Follows.queue_eq_nil_iff (h : Follows ticks s) :
    s.sources.queue = [] ↔ s.delivered = sent ticks := by
  rw [← h.lines, List.self_eq_append_right]

/-- An uninterrupted poll delivers the next line that was sent, if there is one. -/
theorem Follows.delivered_poll (h : Follows ticks s) (hp : s.phase = .watching)
    (hc : s.sources.cancelled = false) (hd : s.sources.due = false) :
    s.poll.delivered = (sent ticks).take (s.delivered.length + 1) := by
  obtain ⟨hopen, hended, -⟩ := poll_advances hp hc hd
  rw [← h.lines, List.take_length_add_append]
  cases ho : s.streamsOpen with
  | true => exact hopen ho
  | false => rw [hended ho, (h.ended ho).2, List.take_nil, List.append_nil]

/-- An uninterrupted poll notes the end of the output when every line sent has been delivered. -/
theorem Follows.streamsOpen_poll (h : Follows ticks s) (hp : s.phase = .watching)
    (hc : s.sources.cancelled = false) (hd : s.sources.due = false) :
    s.poll.streamsOpen = false ↔ .happen .closed ∈ ticks ∧ s.delivered = sent ticks := by
  rw [(poll_advances hp hc hd).2.2.1, h.queue_eq_nil_iff, h.closed, and_comm]
  refine ⟨fun hx => hx.elim (fun ho => ?_) id, .inr⟩
  obtain ⟨hx, hq⟩ := h.ended ho
  exact ⟨h.closed.mp hx, h.queue_eq_nil_iff.mp hq⟩

/-- For every order in which things happen and are polled for: what is delivered is an initial
part of what was sent; a supervisor that returns has killed its group, once; it returns that the
process exited only when the streams have ended, that exit has been observed and every line has been
delivered. While it watches, the first poll that finds a cancellation settles that it was cancelled;
the first that finds the deadline and no cancellation, that the process had exited if that had been
observed, and else that it timed out. Any other poll delivers the next line that was sent, if there
is one, notes the end of the output if there is none and the streams have ended, and observes the
exit if the output has nothing to tell; it settles that the process exited exactly if then both ends
are known, and the next poll returns that. What is settled does not change, and is returned when the
killed process has ended, the grace period is over and polls go on. -/
theorem supervision_settled (ticks : List Tick) :
    let s := start.run ticks
    s.delivered <+: sent ticks ∧
    (∀ t, s.termination? = some t → s.killed = true ∧ s.signals = 1) ∧
    (∀ e, s.termination? = some (.exited e) → .happen .closed ∈ ticks ∧ exitOf? ticks = some e ∧
      s.streamsOpen = false ∧ s.exit = some e ∧ s.delivered = sent ticks) ∧
    (∀ pre post, ticks = pre ++ .poll :: post → (start.run pre).isWatching = true →
      let m := start.run pre
      (.happen .cancelled ∈ pre → s.verdict? = some .cancelled) ∧
      (.happen .cancelled ∉ pre → .happen .deadline ∈ pre →
        (∀ e, m.exit = some e → s.verdict? = some (.exitedPastDeadline e)) ∧
        (m.exit = none → s.verdict? = some .timedOut)) ∧
      (.happen .cancelled ∉ pre → .happen .deadline ∉ pre →
        m.poll.delivered = (sent pre).take (m.delivered.length + 1) ∧
        (m.poll.streamsOpen = false ↔ .happen .closed ∈ pre ∧ m.delivered = sent pre) ∧
        (m.HasOutput → m.poll.exit = m.exit) ∧
        (¬ m.HasOutput → m.poll.exit = m.exit.or (exitOf? pre)) ∧
        (∀ e, m.poll.verdict? = some (.exited e) ↔
          m.poll.streamsOpen = false ∧ m.poll.exit = some e) ∧
        (m.poll.verdict? = none ∨ ∃ e, m.poll.verdict? = some (.exited e)))) ∧
    (∀ t, s.termination? = some t → s.verdict? = some t) ∧
    ∀ t, s.verdict? = some t →
      (∀ more, (start.run (ticks ++ more)).verdict? = some t) ∧
      (∀ e more, t = .exited e → (start.run (ticks ++ .poll :: more)).termination? = some t) ∧
      ∀ e n, s.sources.queue.length < n →
        (start.run (ticks ++ .happen (.exited e) :: .poll :: .happen .graceOver ::
          List.replicate n .poll)).termination? = some t := by
  intro s
  have hs : Follows ticks s := follows_run ticks
  refine ⟨⟨_, hs.lines⟩, ?_, ?_, ?_, fun t => verdict_of_termination, ?_⟩
  · intro t ht
    apply hs.killed
    intro hp
    simp [termination?, hp] at ht
  · intro e he
    obtain ⟨ho, hx⟩ := hs.complete e (verdict_of_termination he)
    obtain ⟨hc, hq⟩ := hs.ended ho
    refine ⟨hs.closed.mp hc, hs.exit ▸ hs.noted e hx, ho, hx, ?_⟩
    exact hs.queue_eq_nil_iff.mp hq
  · intro pre post hticks hwatch m
    have hm : Follows pre m := follows_run pre
    have hp : m.phase = .watching := watching_iff.mp hwatch
    have hrun : s = m.poll.run post := by
      change start.run ticks = _
      rw [hticks, run_append]
      rfl
    rw [hrun]
    refine ⟨?_, ?_, ?_⟩
    · intro hc
      exact verdict_run (poll_cancelled hp (hm.cancelled.mpr hc))
    · intro hc hd
      have hc : m.sources.cancelled = false := Bool.eq_false_iff.mpr fun h => hc (hm.cancelled.mp h)
      obtain ⟨hexited, htimedOut⟩ := poll_due hp hc (hm.due.mpr hd)
      exact ⟨fun e he => verdict_run (hexited e he), fun he => verdict_run (htimedOut he)⟩
    · intro hc hd
      have hc : m.sources.cancelled = false := Bool.eq_false_iff.mpr fun h => hc (hm.cancelled.mp h)
      have hd : m.sources.due = false := Bool.eq_false_iff.mpr fun h => hd (hm.due.mp h)
      obtain ⟨hverdict, hbusy, hidle⟩ := poll_uninterrupted hp hc hd
      refine ⟨hm.delivered_poll hp hc hd, hm.streamsOpen_poll hp hc hd, hbusy, hm.exit ▸ hidle, ?_,
        hverdict⟩
      exact (poll_advances hp hc hd).2.2.2
  · intro t ht
    refine ⟨?_, ?_, ?_⟩
    · intro more
      rw [run_append]
      exact verdict_run ht
    · intro e more he
      rw [run_append, he]
      exact returns_exited hs (ht.trans (congrArg some he))
    · intro e n hn
      rw [run_append]
      exact termination_of_verdict e ht hn

/-- The exit comes while a line is queued; then the line and the end of the output are taken, the
exit is seen, and it is returned with both lines. -/
theorem supervision_settled_exited :
    let ticks : List Tick := [.happen (.line (.stdout "a")), .poll, .happen (.line (.stderr "b")),
      .happen (.exited (.code 3)), .happen .closed, .poll, .poll, .poll, .poll]
    (start.run ticks).termination? = some (.exited (.code 3)) ∧
      (start.run ticks).delivered = [.stdout "a", .stderr "b"] := by
  intro ticks
  have huninterrupted := ((supervision_settled (ticks.take 8)).2.2.2.1 (ticks.take 7) [] rfl
    (by decide)).2.2 (by decide) (by decide)
  obtain ⟨-, -, -, hidle, hexited, -⟩ := huninterrupted
  have hsilent : ¬ (start.run (ticks.take 7)).HasOutput := fun h => absurd h.1 (by decide)
  have hverdict : (start.run (ticks.take 8)).verdict? = some (.exited (.code 3)) :=
    (hexited (.code 3)).mpr ⟨by decide, (hidle hsilent).trans (by decide)⟩
  have hreturned : (start.run ticks).termination? = some (.exited (.code 3)) :=
    ((supervision_settled (ticks.take 8)).2.2.2.2.2 _ hverdict).2.1 (.code 3) [] rfl
  obtain ⟨-, -, -, -, hdelivered⟩ := (supervision_settled ticks).2.2.1 (.code 3) hreturned
  exact ⟨hreturned, hdelivered⟩

end HandlerHost.Child.Supervisor
