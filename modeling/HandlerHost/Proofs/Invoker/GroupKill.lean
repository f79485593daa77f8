import HandlerHost.Proofs.Invoker.Cancellation

/-!
The kill of a process group. A supervisor kills the group as watching ends, and one that is let go
of kills it unless that was done. So from the start of a process to the end of its invocation the
group is killed once, and only then does the invocation give up its workspace and its slot.
-/
namespace HandlerHost

open Child (Life Supervisor Termination)
open Text (Dictionary)

namespace Child.Supervisor

variable {s : Supervisor} {ticks : List Tick} {t : Tick}

theorem isWatching_eq_false_iff : s.isWatching = false ↔ ∃ fin, s.verdict? = some fin := by
  unfold isWatching verdict?
  cases s.phase <;> simp

theorem killed_run : (start.run ticks).killed = !(start.run ticks).isWatching := by
  have hf : Follows ticks (start.run ticks) := follows_run ticks
  by_cases hp : (start.run ticks).phase = .watching
  · simp [(hf.spared hp).1, isWatching, hp]
  · simp [(hf.killed hp).1, isWatching, hp]

theorem signals_run :
    (start.run ticks).signals = if (start.run ticks).isWatching = true then 0 else 1 := by
  have hf : Follows ticks (start.run ticks) := follows_run ticks
  by_cases hp : (start.run ticks).phase = .watching
  · simp [(hf.spared hp).2, isWatching, hp]
  · simp [(hf.killed hp).2, isWatching, hp]

/-- Whenever a process is let go of, its group has been killed once. -/
theorem signals_drop_run : (start.run ticks).drop.signals = 1 := by
  have hk : (start.run ticks).killed = _ := killed_run
  have hs : (start.run ticks).signals = _ := signals_run
  unfold drop signalGroup
  cases hw : (start.run ticks).isWatching <;> simp [hk, hs, hw]

/-- Watching that is over does not begin again. -/
theorem isWatching_tick (h : s.isWatching = false) : (s.tick t).isWatching = false := by
  obtain ⟨fin, hv⟩ := isWatching_eq_false_iff.mp h
  exact isWatching_eq_false_iff.mpr ⟨fin, verdict_tick hv⟩

end Child.Supervisor

namespace Invoker

variable {c : Config} {h : Host} {p q : Pool} {v w : Invocation} {n : Nat} {a : Pool.Action}
  {e : Effect} {es us : List Effect} {s : Stage} {ms : List Move} {ticks : List Supervisor.Tick}
  {t : Supervisor.Tick}

namespace Effect

/-- What an invocation does before its process: it takes a slot, and makes and fills its
directory. -/
def prepares : Effect → Bool
  | slotTaken => true
  | operation (.remove _) => false
  | operation _ => true
  | _ => false

/-- What gives up the workspace or the slot. -/
def yields : Effect → Bool
  | removal => true
  | operation (.remove _) => true
  | slotReturned => true
  | _ => false

theorem prepares_eq_false (he : e.yields = true) : e.prepares = false := by
  cases e with
  | operation o => cases o <;> first | rfl | cases he
  | _ => first | rfl | cases he

end Effect

namespace Stage

/-- The process is over, or there never was one. -/
def past : Stage → Bool
  | removing _ _ => true
  | ended _ => true
  | _ => false

theorem past_eq_false (hs : s.prepares = true) : s.past = false := by
  cases s <;> first | rfl | cases hs

theorem past_cancel : s.cancel.past = s.past := by cases s <;> rfl

/-- The process is there, and supervision has not come to a decision. -/
def watches : Stage → Bool
  | running _ _ s => s.isWatching
  | _ => false

theorem watches_eq_false (hs : s.past = true) : s.watches = false := by
  cases s <;> first | rfl | cases hs

end Stage

/-- What has been done to the process group of a supervisor. -/
def kills (s : Supervisor) : List Effect := if s.killed then [.groupKilled] else []

/-- What the effects of an invocation tell of its process, by the stage that it has come to: none
was started yet, none ever was, one is there, one was there. -/
inductive Lifetime : Stage → List Effect → Prop
  | unborn {s : Stage} {us : List Effect} (hs : s.prepares = true)
      (hus : ∀ e ∈ us, e.prepares = true) : Lifetime s us
  | stillborn {s : Stage} {us : List Effect} (hs : s.past = true)
      (hus : ∀ e ∈ us, e.prepares = true ∨ e.yields = true) : Lifetime s us
  | alive {ws : Workspace} {life : Life} {us : List Effect} (ticks : List Supervisor.Tick)
      (hus : ∀ e ∈ us, e.prepares = true) :
      Lifetime (.running ws life (Supervisor.start.run ticks))
        (us ++ .started :: kills (Supervisor.start.run ticks))
  | buried {s : Stage} {us es : List Effect} (hs : s.past = true)
      (hus : ∀ e ∈ us, e.prepares = true) (hes : ∀ e ∈ es, e.yields = true) :
      Lifetime s (us ++ .started :: .groupKilled :: es)

theorem Lifetime.prepares (hl : Lifetime s us) (hs : s.prepares = true) :
    ∀ e ∈ us, e.prepares = true := by
  have hpast := Stage.past_eq_false hs
  cases hl with
  | unborn _ hus => exact hus
  | stillborn hs' _ => simp [hs'] at hpast
  | alive _ _ => cases hs
  | buried hs' _ _ => simp [hs'] at hpast

/-- A process that is past stays so, and its invocation has nothing left but to yield. -/
theorem Lifetime.yield (hl : Lifetime s us) (hs : s.past = true) {t : Stage} (ht : t.past = true)
    (hes : ∀ e ∈ es, e.yields = true) : Lifetime t (us ++ es) := by
  cases hl with
  | unborn hs' _ => simp [Stage.past_eq_false hs'] at hs
  | stillborn _ hus =>
    refine .stillborn ht fun e he => ?_
    rcases List.mem_append.mp he with he | he
    · exact hus e he
    · exact .inr (hes e he)
  | alive _ _ => cases hs
  | @buried _ us es' _ hus hes' =>
    have hboth : ∀ e ∈ es' ++ es, e.yields = true := fun e he =>
      (List.mem_append.mp he).elim (hes' e) (hes e)
    have hl : Lifetime t (us ++ .started :: .groupKilled :: (es' ++ es)) := .buried ht hus hboth
    simpa using hl

/-- One who has not had a process, and goes on without one. -/
theorem Lifetime.prepare (hl : Lifetime s us) (hs : s.prepares = true) {t : Stage}
    (ht : t.prepares = true) (hes : ∀ e ∈ es, e.prepares = true) : Lifetime t (us ++ es) := by
  refine .unborn ht fun e he => ?_
  exact (List.mem_append.mp he).elim (hl.prepares hs e) (hes e)

/-- One who has not had a process, and never will. -/
theorem Lifetime.forgo (hl : Lifetime s us) (hs : s.prepares = true) {t : Stage}
    (ht : t.past = true) (hes : ∀ e ∈ es, e.prepares = true ∨ e.yields = true) :
    Lifetime t (us ++ es) := by
  refine .stillborn ht fun e he => ?_
  exact (List.mem_append.mp he).elim (fun he => .inl (hl.prepares hs e he)) (hes e)

theorem Lifetime.running {ws : Workspace} {life : Life} {sup : Supervisor}
    (hl : Lifetime (.running ws life sup) us) : ∃ ticks us', sup = Supervisor.start.run ticks ∧
      (∀ e ∈ us', e.prepares = true) ∧ us = us' ++ .started :: kills sup := by
  cases hl with
  | unborn hs _ => cases hs
  | stillborn hs _ => cases hs
  | @alive _ _ us' ticks hus => exact ⟨ticks, us', rfl, hus, rfl⟩
  | buried hs _ _ => cases hs

/-- The tick that ends watching kills the group. -/
theorem kills_tick : kills (Supervisor.start.run ticks) ++
    killing (Supervisor.start.run ticks) ((Supervisor.start.run ticks).tick t) =
      kills ((Supervisor.start.run ticks).tick t) := by
  have hk : (Supervisor.start.run ticks).killed = _ := Supervisor.killed_run
  have ht : (Supervisor.start.run (ticks ++ [t])).killed = _ := Supervisor.killed_run
  rw [Supervisor.run_concat] at ht
  unfold kills killing
  cases hw : (Supervisor.start.run ticks).isWatching with
  | true => simp [hk, hw]
  | false => simp [hk, ht, hw, Supervisor.isWatching_tick hw]

theorem kills_farewell {ws : Workspace} {life : Life} {sup : Supervisor} :
    kills sup ++ (Stage.running ws life sup).farewell =
      [.groupKilled, .removal, .slotReturned] := by
  cases hk : sup.killed <;> simp [kills, Stage.farewell, hk]

/-- A supervisor that returns has had the group killed. -/
theorem kills_of_termination {fin : Termination}
    (h : (Supervisor.start.run ticks).termination? = some fin) :
    kills (Supervisor.start.run ticks) = [.groupKilled] := by
  have hv := Supervisor.verdict_of_termination h
  have hw := Supervisor.isWatching_eq_false_iff.mpr ⟨fin, hv⟩
  simp [kills, Supervisor.killed_run, hw]

theorem supervisor_run (v : Invocation) :
    ∃ ticks, v.supervisor = Supervisor.start.run ticks ∧ kills v.supervisor = [] := by
  unfold Invocation.supervisor
  split
  · exact ⟨[.happen .cancelled], rfl, rfl⟩
  · exact ⟨[], rfl, rfl⟩

theorem notMem_of_prepares (hus : ∀ e ∈ us, e.prepares = true) (he : e.prepares = false) :
    e ∉ us := fun h => by simp [hus e h] at he

theorem notMem_of_yields (hes : ∀ e ∈ es, e.yields = true) (he : e.yields = false) :
    e ∉ es := fun h => by simp [hes e h] at he

theorem Lifetime.spared (hl : Lifetime s us) (hs : .started ∉ us) : .groupKilled ∉ us := by
  cases hl with
  | unborn _ hus => exact notMem_of_prepares hus rfl
  | stillborn _ hus =>
    intro hk
    rcases hus _ hk with he | he <;> cases he
  | alive => simp at hs
  | buried => simp at hs

/-- Where a process was started, nothing follows while it is watched, and after that the kill of its
group comes first. -/
theorem Lifetime.split (hl : Lifetime s us) (hs : .started ∈ us) :
    ∃ pre, (∀ e ∈ pre, e.prepares = true) ∧ (s.watches = true ∧ us = pre ++ [.started] ∨
      s.watches = false ∧ ∃ es, us = pre ++ [.started, .groupKilled] ++ es ∧
        ∀ e ∈ es, e.yields = true) := by
  cases hl with
  | unborn _ hus => exact absurd hs (notMem_of_prepares hus rfl)
  | stillborn _ hus => rcases hus _ hs with he | he <;> cases he
  | @alive ws life pre ticks hus =>
    refine ⟨pre, hus, ?_⟩
    rw [kills, Supervisor.killed_run, Stage.watches]
    cases (Supervisor.start.run ticks).isWatching with
    | true => exact .inl ⟨rfl, rfl⟩
    | false => exact .inr ⟨rfl, [], by simp, by simp⟩
  | @buried _ pre es hpast hus hes =>
    exact ⟨pre, hus, .inr ⟨Stage.watches_eq_false hpast, es, by simp, hes⟩⟩

theorem Lifetime.count_eq (hl : Lifetime s us) (hs : .started ∈ us) : us.count .started = 1 ∧
    us.count .groupKilled = if s.watches = true then 0 else 1 := by
  obtain ⟨pre, hpre, hrest⟩ := hl.split hs
  have hstarted : pre.count .started = 0 := List.count_eq_zero.mpr (notMem_of_prepares hpre rfl)
  have hkilled : pre.count .groupKilled = 0 := List.count_eq_zero.mpr (notMem_of_prepares hpre rfl)
  rcases hrest with ⟨hw, rfl⟩ | ⟨hw, es, rfl, hes⟩
  · simp [List.count_append, hstarted, hkilled, hw]
  · have hstarted' : es.count .started = 0 := List.count_eq_zero.mpr (notMem_of_yields hes rfl)
    have hkilled' : es.count .groupKilled = 0 := List.count_eq_zero.mpr (notMem_of_yields hes rfl)
    simp [List.count_append, hstarted, hkilled, hstarted', hkilled', hw]

/-- What yields comes after the process, and so after the kill. -/
theorem Lifetime.killed_before (hl : Lifetime s us) (hs : .started ∈ us)
    {before after : List Effect} (hus : us = before ++ e :: after) (he : e.yields = true) :
    .groupKilled ∈ before := by
  have hprepares := Effect.prepares_eq_false he
  obtain ⟨pre, hpre, ⟨-, rfl⟩ | ⟨-, es, rfl, -⟩⟩ := hl.split hs
  · have hmem : e ∈ pre ++ [.started] := by simp [hus]
    rcases List.mem_append.mp hmem with hmem | hmem
    · exact absurd hmem (notMem_of_prepares hpre hprepares)
    · obtain rfl := List.mem_singleton.mp hmem
      cases he
  · have hfirst : e ∉ pre ++ [.started, .groupKilled] := by
      intro hmem
      rcases List.mem_append.mp hmem with hmem | hmem
      · exact notMem_of_prepares hpre hprepares hmem
      · rcases List.mem_pair.mp hmem with rfl | rfl <;> cases he
    rcases List.append_eq_append_iff.mp hus with ⟨more, rfl, -⟩ | ⟨more, hmore, hes⟩
    · simp
    · cases more with
      | nil =>
        rw [List.append_nil] at hmore
        simp [← hmore]
      | cons e' more =>
        obtain rfl : e = e' := (List.cons.inj hes).1
        exact absurd (by simp [hmore]) hfirst

namespace Pool

theorem lifetime_turn (ht : Turn p n v a es s) (hl : Lifetime v.stage us) :
    Lifetime s (us ++ es) := by
  cases ht with
  | forgo hs => exact hl.forgo (by rw [hs]; rfl) rfl (by simp)
  | unresolved hs => exact hl.forgo (by rw [hs]; rfl) rfl (by simp [Effect.prepares, Effect.yields])
  | unprovided hs =>
    refine hl.forgo ?_ rfl (by simp [Effect.yields])
    rcases hs with hs | hs <;> rw [hs] <;> rfl
  | unwritten hs => exact hl.forgo (by rw [hs]; rfl) rfl (by simp [Effect.yields])
  | unstarted hs => exact hl.forgo (by rw [hs]; rfl) rfl (by simp [Effect.yields])
  | root hs => exact hl.prepare (by rw [hs]; rfl) rfl (by simp [Effect.prepares])
  | directory hs => exact hl.prepare (by rw [hs]; rfl) rfl (by simp [Effect.prepares])
  | first hs => exact hl.prepare (by rw [hs]; rfl) rfl (by simp [Effect.prepares])
  | next hs => exact hl.prepare (by rw [hs]; rfl) rfl (by simp [Effect.prepares])
  | removed hs => exact hl.yield (by rw [hs]; rfl) rfl (by simp [Effect.yields])
  | @start i ws life fault hs =>
    obtain ⟨ticks, hrun, hkills⟩ := supervisor_run v
    have hus := hl.prepares (by rw [hs]; rfl)
    have halive : Lifetime (.running ws life v.supervisor) (us ++ .started :: kills v.supervisor) :=
      hrun ▸ .alive ticks hus
    rwa [hkills] at halive
  | @watch ws life sup t hs ht =>
    rw [hs] at hl
    obtain ⟨ticks, us', rfl, hus, rfl⟩ := hl.running
    rw [List.append_assoc, List.cons_append, kills_tick, ← Supervisor.run_concat]
    exact .alive _ hus
  | @finish ws life sup t fin hs ht =>
    rw [hs] at hl
    obtain ⟨ticks, us', rfl, hus, rfl⟩ := hl.running
    -- a supervisor that returns has decided, with this tick at the latest, and killed the group
    rw [← Supervisor.run_concat] at ht
    have hkills : kills ((Supervisor.start.run ticks).tick t) = [.groupKilled] := by
      rw [← Supervisor.run_concat]
      exact kills_of_termination ht
    rw [List.append_assoc, List.cons_append, ← List.append_assoc, kills_tick, hkills]
    exact .buried rfl hus (by simp [Effect.yields])

/-- Letting go of a process kills its group, unless that was done. -/
theorem lifetime_farewell (hl : Lifetime s us) :
    Lifetime (.ended .aborted) (us ++ s.farewell) := by
  cases s with
  | waiting => exact hl.forgo rfl rfl (by simp [Stage.farewell])
  | rooting i => exact hl.forgo rfl rfl (by simp [Stage.farewell, Effect.yields])
  | making i => exact hl.forgo rfl rfl (by simp [Stage.farewell, Effect.yields])
  | writing i ws rest => exact hl.forgo rfl rfl (by simp [Stage.farewell, Effect.yields])
  | removing ws r => exact hl.yield rfl rfl (by simp [Stage.farewell, Effect.yields])
  | ended e => exact hl.yield rfl rfl (by simp [Stage.farewell, Effect.yields])
  | running ws life sup =>
    obtain ⟨ticks, us', rfl, hus, rfl⟩ := hl.running
    rw [List.append_assoc, List.cons_append, kills_farewell]
    exact .buried rfl hus (by simp [Effect.yields])

theorem lifetime_cancel (hl : Lifetime s us) : Lifetime s.cancel us := by
  cases hl with
  | unborn hs hus => exact .unborn (Stage.prepares_cancel.trans hs) hus
  | stillborn hs hus => exact .stillborn (Stage.past_cancel.trans hs) hus
  | @alive ws life us ticks hus =>
    -- a cancellation is one more tick, and kills nothing by itself
    have hcancel : (Supervisor.start.run ticks).happen .cancelled =
        Supervisor.start.run (ticks ++ [.happen .cancelled]) :=
      (Supervisor.run_concat (t := .happen .cancelled)).symm
    have hkills : kills (Supervisor.start.run ticks) =
        kills ((Supervisor.start.run ticks).happen .cancelled) := rfl
    rw [Stage.cancel, hkills, hcancel]
    exact .alive _ hus
  | buried hs hus hes => exact .buried (Stage.past_cancel.trans hs) hus hes

theorem lifetime_fate (hf : Fate p n v a es w) (hl : Lifetime v.stage us) :
    Lifetime w.stage (us ++ es) := by
  cases hf with
  | untouched => rwa [List.append_nil]
  | arrived => rwa [List.append_nil]
  | cancelled _ =>
    rw [List.append_nil]
    exact lifetime_cancel hl
  | turned ht => exact lifetime_turn ht hl
  | aborted _ => exact lifetime_farewell hl

theorem lifetime_play (hp : ofConfig? c h = some p) (hv : (p.play ms).invocations[n]? = some v) :
    Lifetime v.stage ((p.play ms).trace n) := by
  refine play_each (P := fun p n v => Lifetime v.stage (p.trace n)) hp ?_ ?_ (fun hl => hl) hv
  · intro q n r id _ htrace
    rw [htrace]
    exact .unborn rfl (by simp)
  · intro p a q n v hv hl hq
    obtain ⟨w, es, hf, hw, htrace, -⟩ := fate_of_step hq hv
    refine ⟨w, hw, ?_⟩
    rw [htrace]
    exact lifetime_fate hf hl

theorem flying_play (hp : ofConfig? c h = some p) : Flying (p.play ms) := by
  refine play_invariant (P := Flying) ?_ (fun hf hs => flying_step hs hf) fun hf => ?_
  · obtain rfl := eq_of_ofConfig? hp
    exact ⟨by simp, by simp, by simp⟩
  · exact ⟨hf.awaited, hf.single, hf.begun⟩

theorem killed_of_killing {sup : Supervisor} (hrun : sup = Supervisor.start.run ticks)
    (hk : .groupKilled ∈ killing sup (sup.tick t)) :
    sup.isWatching = true ∧ (sup.tick t).isWatching = false := by
  have hs : (Supervisor.start.run ticks).killed = _ := Supervisor.killed_run
  have ht : (Supervisor.start.run (ticks ++ [t])).killed = _ := Supervisor.killed_run
  rw [Supervisor.run_concat, ← hrun] at ht
  rw [← hrun] at hs
  unfold killing at hk
  split at hk
  · simp_all
  · cases hk

/-- A group is killed by the tick that ends watching, or as its process is let go of. -/
theorem watches_of_killed (hf : Fate p n v a es w) (hl : Lifetime v.stage us)
    (hk : .groupKilled ∈ es) : ∃ ws life sup, v.stage = .running ws life sup ∧
      sup.isWatching = true ∧
      (a = .abort n ∨ ∃ t, a = .tick n t ∧ (sup.tick t).isWatching = false) := by
  cases hf with
  | untouched => cases hk
  | arrived => cases hk
  | cancelled _ => cases hk
  | turned ht =>
    cases ht with
    | @watch ws life sup t hs _ =>
      obtain ⟨ticks, -, hrun, -⟩ := (hs ▸ hl).running
      obtain ⟨hw, hw'⟩ := killed_of_killing hrun hk
      exact ⟨ws, life, sup, hs, hw, .inr ⟨t, rfl, hw'⟩⟩
    | @finish ws life sup t _ hs _ =>
      obtain ⟨ticks, -, hrun, -⟩ := (hs ▸ hl).running
      obtain ⟨hw, hw'⟩ := killed_of_killing hrun (by simpa using hk)
      exact ⟨ws, life, sup, hs, hw, .inr ⟨t, rfl, hw'⟩⟩
    | _ => simp at hk
  | aborted _ =>
    cases hs : v.stage with
    | running ws life sup =>
      obtain ⟨ticks, -, rfl, -⟩ := (hs ▸ hl).running
      refine ⟨ws, life, _, rfl, ?_, .inl rfl⟩
      cases hw : (Supervisor.start.run ticks).isWatching with
      | true => rfl
      | false => simp [hs, Stage.farewell, Supervisor.killed_run, hw] at hk
    | _ => simp [hs, Stage.farewell] at hk

/-- The group of a process is killed exactly once, in a pool that starts at rest, whatever is done
and whichever invocation goes away when. A supervisor has sent the signal once watching is over, and
not before; and whenever it is let go of, be it before its first poll or while it waits for the
killed process or its output, the signal has been sent once in all. An invocation starts one process
at most. If it has started none it kills none. If it has started one, it has killed its group once,
unless the process is still being watched; it does so with the tick that ends watching or when its
caller goes away. Whatever gives up the workspace or the slot comes after the kill, and so does a
removal that is on its way. -/
theorem group_killed_once (hp : ofConfig? c h = some p)
    (hv : (p.play ms).invocations[n]? = some v) :
    let q := p.play ms
    let us := q.trace n
    (∀ ticks, let s := Supervisor.start.run ticks
      s.signals = (if s.isWatching = true then 0 else 1) ∧ s.drop.signals = 1) ∧
    (∀ w life s, v.stage = .running w life s →
      (∃ ticks, s = Supervisor.start.run ticks) ∧ us.count .groupKilled = s.signals) ∧
    (.started ∉ us → .groupKilled ∉ us) ∧
    (.started ∈ us → us.count .started = 1 ∧
      us.count .groupKilled = (if v.stage.watches = true then 0 else 1) ∧
      (∀ before e after, us = before ++ e :: after → e.yields = true → .groupKilled ∈ before) ∧
      ∀ w, (⟨n, .remove w⟩ : Flight) ∈ q.flights → .groupKilled ∈ us) ∧
    ∀ a, us.count .groupKilled < ((q.apply a).trace n).count .groupKilled →
      ∃ w life s, v.stage = .running w life s ∧ s.isWatching = true ∧
        (a = .abort n ∨ ∃ t, a = .tick n t ∧ (s.tick t).isWatching = false) := by
  intro q us
  have hl : Lifetime v.stage us := lifetime_play hp hv
  refine ⟨fun ticks => ⟨Supervisor.signals_run, Supervisor.signals_drop_run⟩, fun w life s hs => ?_,
    hl.spared, fun hs => ?_, fun a ha => ?_⟩
  · have hl' : Lifetime (.running w life s) us := hs ▸ hl
    obtain ⟨ticks, pre, rfl, -, hus⟩ := hl'.running
    have hstarted : .started ∈ us := by simp [hus]
    refine ⟨⟨ticks, rfl⟩, ?_⟩
    rw [(hl'.count_eq hstarted).2, Supervisor.signals_run]
    rfl
  · obtain ⟨hstarted, hkilled⟩ := hl.count_eq hs
    refine ⟨hstarted, hkilled, fun before e after hus he => hl.killed_before hs hus he, ?_⟩
    intro w hw
    have hflying : Flying q := flying_play hp
    have hmem : .operation (.remove w) ∈ us := hflying.begun _ hw
    obtain ⟨before, after, hus⟩ := List.mem_iff_append.mp hmem
    rw [hus]
    exact List.mem_append_left _ (hl.killed_before hs hus rfl)
  · obtain ⟨w, es, hf, -, htrace, -⟩ := fate_of_step step_apply hv (a := a)
    refine watches_of_killed hf hl ?_
    rw [htrace, List.count_append] at ha
    exact List.count_pos_iff.mp (Nat.lt_add_right_iff_pos.mp ha)

/-- A caller goes away while the process that was killed at the deadline is waited for. -/
theorem group_killed_once_waiting :
    let c : Config := { Config.empty with
      workspaceRoot := some "/w", interpreters := Dictionary.empty.insert "python" ["/bin/sh"] }
    let h : Host := ⟨⟨[(["bin"], .directory), (["bin", "sh"], .file "" true)]⟩, [], .empty⟩
    let p : Pool := ⟨c, h, 16, [], [], []⟩
    let started : List Action := [.submit (.ofCode "python" "x") ⟨0⟩, .acquire 0, .settle 0 none,
      .proceed 0 none, .settle 0 none, .proceed 0 none, .settle 0 none, .proceed 0 none,
      .settle 0 none, .proceed 0 none, .settle 0 none, .proceed 0 none]
    let ended := started ++ [.tick 0 (.happen .deadline), .tick 0 .poll, .abort 0]
    let us := (p.play (ended.map .act)).trace 0
    .slotReturned ∈ us ∧ us.count .started = 1 ∧ us.count .groupKilled = 1 := by
  intro c h p started ended us
  have hpool : ofConfig? c h = some p := rfl
  obtain ⟨hwatches, hstarted, hreturned⟩ :
      (p.play (ended.map .act)).invocations[0]?.map (·.stage.watches) = some false ∧
        .started ∈ us ∧ .slotReturned ∈ us := by
    decide +kernel
  obtain ⟨v, hv, hw⟩ := Option.map_eq_some_iff.mp hwatches
  obtain ⟨-, -, -, hkilled, -⟩ := group_killed_once hpool hv
  obtain ⟨hone, hcount, -⟩ := hkilled hstarted
  rw [hw] at hcount
  exact ⟨hreturned, hone, hcount⟩

end Pool

end Invoker
end HandlerHost
