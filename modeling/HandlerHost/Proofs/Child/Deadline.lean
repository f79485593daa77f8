import HandlerHost.Proofs.Child.Supervision

/-!
Which runs count as timed out. A poll takes a line before it looks at the process, so the end of the
process is seen only by a poll that finds the output with nothing to tell. At the deadline it counts
whether the end has been seen, not whether it has come.
-/
namespace HandlerHost.Child.Supervisor

variable {s : Supervisor} {ticks : List Tick} {t : Tick} {e : Exit} {fin : Termination}
  {p : List Tick → Prop}

/-- Some poll came after ticks of this kind. -/
def PolledAfter (p : List Tick → Prop) (ticks : List Tick) : Prop :=
  ∃ pre post, ticks = pre ++ .poll :: post ∧ p pre

/-- The process has ended, the deadline has not come, and the output has nothing to tell. -/
structure Calm (ticks : List Tick) : Prop where
  early : .happen .deadline ∉ ticks
  ended : (exitOf? ticks).isSome = true
  silent : ¬ (start.run ticks).HasOutput

/-- Before the deadline a poll finds that the process has ended and no output. -/
def ExitSeen (ticks : List Tick) : Prop := PolledAfter Calm ticks

def DeadlineFound (ticks : List Tick) : Prop := PolledAfter (.happen .deadline ∈ ·) ticks

theorem not_polledAfter_nil : ¬ PolledAfter p [] := by
  rintro ⟨pre, post, h, -⟩
  simp at h

theorem polledAfter_concat :
    PolledAfter p (ticks ++ [t]) ↔ PolledAfter p ticks ∨ t = .poll ∧ p ticks := by
  constructor
  · rintro ⟨pre, post, h, hp⟩
    rcases List.eq_nil_or_concat post with rfl | ⟨post, u, rfl⟩
    · obtain ⟨rfl, ht⟩ := List.append_inj' h rfl
      exact .inr ⟨List.singleton_inj.mp ht, hp⟩
    · have h : ticks ++ [t] = (pre ++ .poll :: post) ++ [u] := by simpa using h
      obtain ⟨rfl, -⟩ := List.append_inj' h rfl
      exact .inl ⟨pre, post, rfl, hp⟩
  · rintro (⟨pre, post, rfl, hp⟩ | ⟨rfl, hp⟩)
    · exact ⟨pre, post ++ [t], by simp, hp⟩
    · exact ⟨ticks, [], rfl, hp⟩

theorem deadline_mem_of_found (h : DeadlineFound ticks) : .happen .deadline ∈ ticks := by
  obtain ⟨pre, post, rfl, hd⟩ := h
  exact List.mem_append_left _ hd

theorem exit_stop : (s.stop fin).exit = s.exit := by
  unfold stop signalGroup
  split <;> rfl

/-- Once watching is over, nothing more is noted of the process. -/
theorem exit_poll_of_verdict (h : s.verdict? = some fin) : s.poll.exit = s.exit := by
  have hs : Polled s s.poll := polled
  have hp : s.phase ≠ .watching := fun hp => by simp [verdict?, hp] at h
  generalize s.poll = s' at hs
  cases hs with
  | cancel hw => exact absurd hw hp
  | deadline hw => exact absurd hw hp
  | close hw => exact absurd hw hp
  | observe hw => exact absurd hw hp
  | deliver | finish | idle => rfl
  | reap =>
    unfold reap
    split <;> rfl

theorem exit_poll_due (hp : s.phase = .watching) (hc : s.sources.cancelled = false)
    (hd : s.sources.due = true) : s.poll.exit = s.exit := by
  have hpoll : s.poll = s.stop s.atDeadline := by simp [poll, hp, watch, hc, hd]
  rw [hpoll, exit_stop]

/-- What a verdict on an uncancelled process and the exit that has been noted say of the polls so
far. -/
def Tells (seen found : Prop) (exit : Option Exit) : Option Termination → Prop
  | none => (exit.isSome = true ↔ seen) ∧ ¬ found
  | some (.exited e) => seen ∧ exit = some e
  | some (.exitedPastDeadline e) => seen ∧ exit = some e
  | some .timedOut => ¬ seen ∧ found
  | some .cancelled => False

def Judged (ticks : List Tick) (s : Supervisor) : Prop :=
  Tells (ExitSeen ticks) (DeadlineFound ticks) s.exit s.verdict?

theorem judged_start : Judged [] start := by
  have hexit : (start.exit.isSome = true) = False := by simp [start]
  exact ⟨hexit ▸ iff_of_false id not_polledAfter_nil, not_polledAfter_nil⟩

theorem judged_happen {ev : Event} (h : Judged ticks s) :
    Judged (ticks ++ [.happen ev]) (s.happen ev) := by
  have hseen : ExitSeen (ticks ++ [.happen ev]) ↔ ExitSeen ticks := by
    simp [ExitSeen, polledAfter_concat]
  have hfound : DeadlineFound (ticks ++ [.happen ev]) ↔ DeadlineFound ticks := by
    simp [DeadlineFound, polledAfter_concat]
  rw [Judged, hseen, hfound]
  exact h

theorem exitSeen_poll : ExitSeen (ticks ++ [.poll]) ↔ ExitSeen ticks ∨ Calm ticks := by
  simp [ExitSeen, polledAfter_concat]

theorem deadlineFound_poll :
    DeadlineFound (ticks ++ [.poll]) ↔ DeadlineFound ticks ∨ .happen .deadline ∈ ticks := by
  simp [DeadlineFound, polledAfter_concat]

/-- A verdict stands, and no later poll sees the end in time. -/
theorem judged_settled (h : Judged ticks s) (hv : s.verdict? = some fin) :
    Judged (ticks ++ [.poll]) s.poll := by
  have hpoll : s.poll.verdict? = some fin := verdict_tick (t := .poll) hv
  have hseen : ExitSeen ticks → ExitSeen (ticks ++ [.poll]) := fun hs => exitSeen_poll.mpr (.inl hs)
  rw [Judged, hpoll, exit_poll_of_verdict hv]
  rw [Judged, hv] at h
  cases fin with
  | exited e => exact h.imp_left hseen
  | exitedPastDeadline e => exact h.imp_left hseen
  | timedOut =>
    obtain ⟨hunseen, hfound⟩ := h
    refine ⟨fun hs => ?_, deadlineFound_poll.mpr (.inl hfound)⟩
    rcases exitSeen_poll.mp hs with hs | hcalm
    · exact hunseen hs
    · exact hcalm.early (deadline_mem_of_found hfound)
  | cancelled => exact h

/-- The poll that finds the deadline settles the matter by what has been seen. -/
theorem judged_due (h : Judged ticks s) (hv : s.verdict? = none)
    (hc : s.sources.cancelled = false) (hd : s.sources.due = true)
    (hmem : .happen .deadline ∈ ticks) : Judged (ticks ++ [.poll]) s.poll := by
  have hp : s.phase = .watching := watching_of_unsettled hv
  obtain ⟨hpast, htimedOut⟩ := poll_due hp hc hd
  rw [Judged, hv] at h
  have hseen : s.exit.isSome = true ↔ ExitSeen (ticks ++ [.poll]) := by
    rw [exitSeen_poll, h.1]
    exact (or_iff_left fun hcalm => hcalm.early hmem).symm
  rw [Judged, exit_poll_due hp hc hd]
  cases hx : s.exit with
  | some e =>
    rw [hpast e hx]
    exact ⟨hseen.mp (by rw [hx]; rfl), rfl⟩
  | none =>
    rw [htimedOut hx]
    refine ⟨fun hs => ?_, deadlineFound_poll.mpr (.inr hmem)⟩
    have hsome := hseen.mpr hs
    rw [hx] at hsome
    cases hsome

/-- Before the deadline a poll notes the end of the process exactly when it finds no output. -/
theorem judged_early (h : Judged ticks (start.run ticks)) (hv : (start.run ticks).verdict? = none)
    (hc : (start.run ticks).sources.cancelled = false) (hmem : .happen .deadline ∉ ticks) :
    Judged (ticks ++ [.poll]) (start.run ticks).poll := by
  have hs : Follows ticks (start.run ticks) := follows_run ticks
  have hp : (start.run ticks).phase = .watching := watching_of_unsettled hv
  have hd : (start.run ticks).sources.due = false :=
    Bool.eq_false_iff.mpr fun hd => hmem (hs.due.mp hd)
  obtain ⟨hverdict, hbusy, hidle⟩ := poll_uninterrupted hp hc hd
  rw [Judged, hv] at h
  have hnoted : (start.run ticks).poll.exit.isSome = true ↔ ExitSeen (ticks ++ [.poll]) := by
    rw [exitSeen_poll, ← h.1]
    by_cases ho : (start.run ticks).HasOutput
    · rw [hbusy ho]
      exact (or_iff_left fun hcalm => hcalm.silent ho).symm
    · have hcalm : Calm ticks ↔ (exitOf? ticks).isSome = true :=
        ⟨Calm.ended, fun he => ⟨hmem, he, ho⟩⟩
      rw [hidle ho, hs.exit, hcalm, Option.isSome_or, Bool.or_eq_true]
  have hunfound : ¬ DeadlineFound (ticks ++ [.poll]) := fun hfound =>
    (deadlineFound_poll.mp hfound).elim h.2 hmem
  rw [Judged]
  rcases hverdict with hn | ⟨e, he⟩
  · rw [hn]
    exact ⟨hnoted, hunfound⟩
  · have hpolled : Follows (ticks ++ [.poll]) (start.run ticks).poll := follows_tick (t := .poll) hs
    have hx : (start.run ticks).poll.exit = some e := (hpolled.complete e he).2
    rw [he]
    exact ⟨hnoted.mp (by rw [hx]; rfl), hx⟩

theorem judged_poll (hc : .happen .cancelled ∉ ticks) (h : Judged ticks (start.run ticks)) :
    Judged (ticks ++ [.poll]) (start.run ticks).poll := by
  have hs : Follows ticks (start.run ticks) := follows_run ticks
  have hc : (start.run ticks).sources.cancelled = false :=
    Bool.eq_false_iff.mpr fun h => hc (hs.cancelled.mp h)
  cases hv : (start.run ticks).verdict? with
  | some fin => exact judged_settled h hv
  | none =>
    by_cases hmem : .happen .deadline ∈ ticks
    · exact judged_due h hv hc (hs.due.mpr hmem) hmem
    · exact judged_early h hv hc hmem

theorem judged_run (hc : .happen .cancelled ∉ ticks) : Judged ticks (start.run ticks) := by
  induction ticks using List.reverseRecOn with
  | nil => exact judged_start
  | append_singleton ticks t ih =>
    have hbefore : .happen .cancelled ∉ ticks := fun h => hc (List.mem_append_left _ h)
    rw [run_concat]
    cases t with
    | happen ev => exact judged_happen (ih hbefore)
    | poll => exact judged_poll hbefore (ih hbefore)

/-- For every schedule without a cancellation: what is returned is the exit, in time or past the
deadline, if some poll before the deadline found that the process had ended and that the output had
nothing to tell. If none did, all that is ever returned is that the process timed out, however early
it ended. A poll that finds the deadline settles the matter, and what is settled is returned when
the killed process has ended, the grace period is over and polls go on. -/
theorem timedOut_iff_unseen (hc : .happen .cancelled ∉ ticks) :
    let s := start.run ticks
    (∀ fin, s.termination? = some fin →
      (ExitSeen ticks → ∃ e, exitOf? ticks = some e ∧
        (fin = .exited e ∨ fin = .exitedPastDeadline e)) ∧
      (¬ ExitSeen ticks → fin = .timedOut ∧ DeadlineFound ticks)) ∧
    (DeadlineFound ticks → ∃ fin, s.verdict? = some fin ∧
      ∀ e n, s.sources.queue.length < n →
        (start.run (ticks ++ .happen (.exited e) :: .poll :: .happen .graceOver ::
          List.replicate n .poll)).termination? = some fin) := by
  intro s
  have hs : Follows ticks s := follows_run ticks
  have h : Judged ticks s := judged_run hc
  constructor
  · intro fin hfin
    rw [Judged, verdict_of_termination hfin] at h
    cases fin with
    | exited e =>
      obtain ⟨hseen, hx⟩ := h
      exact ⟨fun _ => ⟨e, hs.exit ▸ hs.noted e hx, .inl rfl⟩, fun hunseen => absurd hseen hunseen⟩
    | exitedPastDeadline e =>
      obtain ⟨hseen, hx⟩ := h
      exact ⟨fun _ => ⟨e, hs.exit ▸ hs.noted e hx, .inr rfl⟩, fun hunseen => absurd hseen hunseen⟩
    | timedOut =>
      obtain ⟨hunseen, hfound⟩ := h
      exact ⟨fun hseen => absurd hseen hunseen, fun _ => ⟨rfl, hfound⟩⟩
    | cancelled => exact h.elim
  · intro hfound
    cases hv : s.verdict? with
    | none =>
      rw [Judged, hv] at h
      exact absurd hfound h.2
    | some fin =>
      refine ⟨fin, rfl, fun e n hn => ?_⟩
      rw [run_append]
      exact termination_of_verdict e hv hn

/-- A line is taken before the end of the process is seen, and another one comes in between. -/
theorem timedOut_iff_unseen_line :
    let ticks : List Tick := [.happen (.line (.stdout "a")), .happen (.exited (.code 0)), .poll,
      .poll, .happen (.line (.stderr "b")), .happen .deadline, .poll, .poll, .poll, .happen .closed,
      .poll]
    .happen .cancelled ∉ ticks ∧ ∀ fin, (start.run ticks).termination? = some fin →
      ∃ e, exitOf? ticks = some e ∧ (fin = .exited e ∨ fin = .exitedPastDeadline e) := by
  intro ticks
  have hc : .happen .cancelled ∉ ticks := by decide
  have hsilent : ¬ (start.run (ticks.take 3)).HasOutput := by
    unfold HasOutput
    decide
  have hseen : ExitSeen ticks := ⟨ticks.take 3, ticks.drop 4, rfl, ⟨by decide, rfl, hsilent⟩⟩
  exact ⟨hc, fun fin hfin => ((timedOut_iff_unseen hc).1 fin hfin).1 hseen⟩

/-- The process has ended at a poll before the deadline, and yet it counts as timed out: lines come
between the polls, as a descendant writes them. -/
theorem timedOut_unseen :
    let pre : List Tick := [.happen (.exited (.code 0)), .happen (.line (.stdout ""))]
    let ticks := pre ++ .poll :: [.happen (.line (.stdout "")), .happen .deadline, .poll, .poll,
      .poll, .happen .closed, .poll]
    .happen .deadline ∉ pre ∧ exitOf? pre = some (.code 0) ∧ .happen .cancelled ∉ ticks ∧
      (start.run ticks).termination? = some .timedOut := by
  decide

end HandlerHost.Child.Supervisor
