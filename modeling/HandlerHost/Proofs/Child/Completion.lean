import HandlerHost.Proofs.Child.Supervision

/-!
Schedules come to an end. The deadline is among the moments of a life, so watching ends at some
moment; the process is killed then, and what is left of its output is collected until the last
session of its own lets go of it. Only a caller who goes away cuts a schedule short.
-/
namespace HandlerHost.Child

open Output (Line OpenLine RawLine)

namespace Scene

variable {P : Scene → Prop} {s : Scene} {t : Supervisor.Tick} {e : Event} {l : Line}
  {stream : Stream} {ls : List RawLine} {bytes : List UInt8} {f : Flood} {d : Deed}
  {ticks : List Supervisor.Tick} {ms : List Moment} {now : Nat}

/-- What every tick preserves, and what does not depend on the output that is under way. -/
structure Stable (P : Scene → Prop) : Prop where
  tick : ∀ {s : Scene} {t : Supervisor.Tick}, P s → P (s.tick t)
  output : ∀ {s : Scene} {out err : OpenLine} {floods : List Flood}, P s →
    P { s with out, err, floods }

namespace Stable

theorem refill (h : Stable P) (hs : P s) : P s.refill := by
  unfold Scene.refill
  split
  · exact hs
  · exact h.tick hs

theorem happen (h : Stable P) (hs : P s) : P (s.happen e) := h.refill (h.tick (h.tick hs))

theorem line (h : Stable P) (hs : P s) : P (s.line l) := by
  simp only [Scene.line]
  split
  · exact h.happen (h.happen hs)
  · exact h.happen hs

theorem lines (h : Stable P) (hs : P s) : P (s.lines stream ls) := by
  induction ls generalizing s with
  | nil => exact hs
  | cons l ls ih => exact ih (s := s.line (stream.line l.text)) (h.line hs)

theorem write (h : Stable P) (hs : P s) : P (s.write stream bytes) := by
  cases stream with
  | stdout => exact h.lines (h.output hs)
  | stderr => exact h.lines (h.output hs)

theorem close (h : Stable P) (hs : P s) : P s.close := h.happen (h.lines (h.lines (h.output hs)))

theorem foldl_tick (h : Stable P) (hs : P s) : P (ticks.foldl Scene.tick s) := by
  induction ticks generalizing s with
  | nil => exact hs
  | cons t ticks ih => exact ih (h.tick hs)

theorem catchUp (h : Stable P) (hs : P s) : P s.catchUp := h.foldl_tick hs

theorem swell (h : Stable P) (hs : P s) : P (s.swell f) :=
  h.refill (s := { s with floods := f :: s.floods }) (h.output hs)

theorem ebb (h : Stable P) (hs : P s) : P (s.ebb f) := by
  simp only [Scene.ebb]
  split
  · exact h.catchUp (h.output hs)
  · exact h.output hs

theorem perform (h : Stable P) (hs : P s) : P (s.perform d) := by
  cases d with
  | write => exact h.write hs
  | aside a =>
    cases a with
    | write => exact h.write hs
    | swell => exact h.swell hs
    | ebb => exact h.ebb hs
    | release => exact hs
  | close => exact h.close hs
  | abort => exact hs
  | exit | deadline | cancel | graceOver => exact h.happen hs

end Stable

/-- The supervisor is where the ticks have brought it. -/
def Recorded (s : Scene) : Prop := s.supervisor = Supervisor.start.run s.ticks.reverse

theorem stable_recorded : Stable Recorded where
  tick {s t} h := by
    simp only [Recorded, tick, List.reverse_cons, Supervisor.run, List.foldl_append,
      List.foldl_cons, List.foldl_nil]
    rw [h]
    rfl
  output h := h

theorem recorded_start {cancelOn : Line → Bool} : (start cancelOn).Recorded := rfl

/-- The matter has been settled. -/
def Settled (s : Scene) : Prop := ∃ fin, s.supervisor.verdict? = some fin

theorem stable_settled : Stable Settled :=
  ⟨fun ⟨fin, h⟩ => ⟨fin, Supervisor.verdict_tick h⟩, fun h => h⟩

/-- The killed process has ended. -/
def Collecting (s : Scene) : Prop := ∃ fin, Supervisor.Collecting fin s.supervisor

theorem stable_collecting : Stable Collecting :=
  ⟨fun ⟨fin, h⟩ => ⟨fin, Supervisor.collecting_tick h⟩, fun h => h⟩

theorem stable_told : Stable fun s => t ∈ s.ticks := ⟨fun h => List.mem_cons_of_mem _ h, fun h => h⟩

theorem settled_of_stopped (h : s.supervisor.isWatching = false) : s.Settled := by
  cases hv : s.supervisor.verdict? with
  | some fin => exact ⟨fin, hv⟩
  | none =>
    have hw := Supervisor.watching_iff.mpr (Supervisor.watching_of_unsettled hv)
    rw [h] at hw
    cases hw

theorem settled_deadline : (s.perform .deadline).Settled :=
  stable_settled.refill (s := (s.tick (.happen .deadline)).tick .poll)
    (Supervisor.verdict_deadline s.supervisor)

theorem stopped_of_settled (h : s.Settled) : s.supervisor.isWatching = false := by
  obtain ⟨fin, h⟩ := h
  rw [Bool.eq_false_iff]
  intro hw
  rw [Supervisor.verdict?, Supervisor.watching_iff.mp hw] at h
  cases h

theorem collecting_exited {e : Exit} (h : s.Settled) : (s.happen (.exited e)).Collecting := by
  obtain ⟨fin, h⟩ := h
  exact stable_collecting.refill (s := (s.tick (.happen (.exited e))).tick .poll)
    ⟨fin, Supervisor.collecting_exited e h⟩

theorem supervisor_foldl_tick : (ticks.foldl tick s).supervisor = s.supervisor.run ticks := by
  induction ticks generalizing s with
  | nil => rfl
  | cons t ticks ih => exact ih

theorem closed_mem_close : .happen .closed ∈ s.close.ticks :=
  stable_told.refill (stable_told.tick List.mem_cons_self)

/-- When both streams have ended the rest is taken, and that is all. -/
theorem over_of_close (hr : s.Recorded) (hc : s.Collecting) :
    ∃ fin, s.close.catchUp.supervisor.termination? = some fin := by
  obtain ⟨fin, hfin⟩ := stable_collecting.close hc
  have hrecorded : s.close.Recorded := stable_recorded.close hr
  have hclosed : s.close.supervisor.sources.closed = true := by
    rw [hrecorded]
    exact (Supervisor.follows_run _).closed.mpr (List.mem_reverse.mpr closed_mem_close)
  refine ⟨fin, ?_⟩
  rw [catchUp, supervisor_foldl_tick]
  exact Supervisor.termination_drained hfin (.inl hclosed) (by omega)

/-- Nobody cuts a schedule short, and it leads the supervisor to its end. -/
def Completes (plan : Schedule) : Prop :=
  plan.aborted = false ∧ ∃ fin, (Supervisor.start.run plan.ticks).termination? = some fin

theorem completes_schedule (hr : s.Recorded) (ht : s.supervisor.termination?.isSome = true) :
    Completes (s.schedule now false) := by
  obtain ⟨fin, hfin⟩ := Option.isSome_iff_exists.mp ht
  rw [hr] at hfin
  exact ⟨rfl, fin, hfin⟩

theorem completes_collect (hr : s.Recorded) (hc : s.Collecting) (hstay : ∀ m ∈ ms, m.deed ≠ .abort)
    (hrelease : ∃ m ∈ ms, m.deed = .aside .release) : Completes (s.collect now ms) := by
  induction ms generalizing s now with
  | nil => simp at hrelease
  | cons m ms ih =>
    obtain ⟨hm, hms⟩ := List.forall_mem_cons.mp hstay
    rw [collect]
    simp only [beq_iff_eq, hm, if_false]
    by_cases hd : m.deed = .aside .release
    · obtain ⟨fin, hfin⟩ := over_of_close hr hc
      have hover : s.close.catchUp.supervisor.termination?.isSome = true := by simp [hfin]
      simp only [hd, if_true, hover]
      exact completes_schedule (stable_recorded.catchUp (stable_recorded.close hr)) hover
    · have hrest : ∃ m ∈ ms, m.deed = .aside .release := by simpa [hd] using hrelease
      simp only [hd, if_false]
      split
      · rename_i ht
        exact completes_schedule (stable_recorded.perform hr) ht
      · exact ih (stable_recorded.perform hr) (stable_collecting.perform hc) hms hrest

end Scene

namespace Moment

variable {m n : Moment} {ms : List Moment}

theorem mem_insertBefore : n ∈ m.insertBefore ms ↔ n = m ∨ n ∈ ms := by
  have hms := List.takeWhile_append_dropWhile (p := fun k : Moment => decide (k.time < m.time))
    (l := ms)
  conv_rhs => rw [← hms]
  rw [insertBefore, List.mem_append, List.mem_cons, List.mem_append]
  exact or_left_comm

theorem mem_insertAfter : n ∈ m.insertAfter ms ↔ n = m ∨ n ∈ ms := by
  have hms := List.takeWhile_append_dropWhile (p := fun k : Moment => decide (k.time ≤ m.time))
    (l := ms)
  conv_rhs => rw [← hms]
  rw [insertAfter, List.mem_append, List.mem_cons, List.mem_append]
  exact or_left_comm

end Moment

namespace Scene

variable {s : Scene} {ms : List Moment} {now : Nat}

theorem completes_aftermath (hr : s.Recorded) (hs : s.Settled) (hstay : ∀ m ∈ ms, m.deed ≠ .abort) :
    Completes (s.aftermath now ms) := by
  have hlate : ∀ m ∈ ms.filter (·.outlasts now), m.deed ≠ .abort :=
    fun m hm => hstay m (List.mem_filter.mp hm).1
  refine completes_collect (stable_recorded.happen (stable_recorded.output hr))
    (collecting_exited (stable_settled.output hs)) ?_ ?_
  · intro m hm
    rcases Moment.mem_insertBefore.mp hm with rfl | hm
    · nofun
    · split at hm
      · exact hlate m hm
      · rcases Moment.mem_insertAfter.mp hm with rfl | hm
        · nofun
        · exact hlate m hm
  · split
    · rename_i hany
      obtain ⟨m, hm, hd⟩ := List.any_eq_true.mp hany
      exact ⟨m, Moment.mem_insertBefore.mpr (.inr hm), beq_iff_eq.mp hd⟩
    · exact ⟨_, Moment.mem_insertBefore.mpr (.inr (Moment.mem_insertAfter.mpr (.inl rfl))), rfl⟩

theorem completes_play (hr : s.Recorded) (hstay : ∀ m ∈ ms, m.deed ≠ .abort)
    (hdeadline : ∃ m ∈ ms, m.deed = .deadline) : Completes (s.play now ms) := by
  induction ms generalizing s now with
  | nil => simp at hdeadline
  | cons m ms ih =>
    obtain ⟨hm, hms⟩ := List.forall_mem_cons.mp hstay
    have hrecorded : (s.perform m.deed).Recorded := stable_recorded.perform hr
    rw [play]
    simp only [beq_iff_eq, hm, if_false]
    split
    · rename_i hw
      have hd : m.deed ≠ .deadline := by
        intro hd
        rw [hd, stopped_of_settled settled_deadline] at hw
        cases hw
      exact ih hrecorded hms (by simpa [hd] using hdeadline)
    · rename_i hw
      exact completes_aftermath hrecorded (settled_of_stopped (by simpa using hw)) hms

end Scene

namespace Life

variable {l : Life} {t : Terms} {m : Moment}

theorem not_abort_of_mem_moments (h : m ∈ l.moments) : m.deed ≠ .abort := by
  rw [moments, List.mem_append] at h
  rcases h with h | h
  · obtain ⟨w, -, rfl⟩ := List.mem_map.mp h
    nofun
  · split at h
    · cases h
    · simp only [List.mem_cons, List.not_mem_nil, or_false] at h
      rcases h with rfl | rfl <;> nofun

theorem mem_foldl_insertAfter {as : List (Nat × Aside)} {ms : List Moment} :
    m ∈ as.foldl (fun ms a => (⟨a.1, .aside a.2⟩ : Moment).insertAfter ms) ms ↔
      (∃ a ∈ as, m = ⟨a.1, .aside a.2⟩) ∨ m ∈ ms := by
  induction as generalizing ms with
  | nil => simp
  | cons a as ih =>
    rw [List.foldl_cons, ih, Moment.mem_insertAfter]
    simp only [List.mem_cons, exists_eq_or_imp]
    exact or_left_comm.trans or_assoc.symm

/-- What the caller sets comes to what happens by itself. -/
theorem mem_momentsOn (ht : t.abortAt = none) : m ∈ l.momentsOn t ↔
    (∃ time ∈ t.cancelAt, m = ⟨time, .cancel⟩) ∨ m = ⟨t.deadline, .deadline⟩ ∨
      (∃ a ∈ l.company, m = ⟨a.1, .aside a.2⟩) ∨ m ∈ l.moments := by
  have hdue : m ∈ (⟨t.deadline, .deadline⟩ : Moment).insertBefore
      (l.company.foldl (fun ms a => (⟨a.1, .aside a.2⟩ : Moment).insertAfter ms) l.moments) ↔ _ :=
    Moment.mem_insertBefore.trans (or_congr_right mem_foldl_insertAfter)
  cases hc : t.cancelAt with
  | none => simpa [momentsOn, ht, hc] using hdue
  | some time => simpa [momentsOn, ht, hc, Moment.mem_insertBefore] using or_congr_right hdue

/-- Unless its caller goes away, the schedule of a life leads to its end. -/
theorem completes_schedule (ht : t.abortAt = none) : Scene.Completes (l.schedule t) := by
  refine Scene.completes_play Scene.recorded_start ?_ ?_
  · intro m hm
    rcases (mem_momentsOn ht).mp hm with ⟨time, -, rfl⟩ | rfl | ⟨a, -, rfl⟩ | hm
    · nofun
    · nofun
    · nofun
    · exact not_abort_of_mem_moments hm
  · exact ⟨⟨t.deadline, .deadline⟩, (mem_momentsOn ht).mpr (.inr (.inl rfl)), rfl⟩

end Life

end HandlerHost.Child
