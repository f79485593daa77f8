import HandlerHost.Proofs.Child.Completion
import HandlerHost.Proofs.Invoker.Arrival

/-!
Calls on a clock are answered. A call whose caller stays takes its slot, carries out its operations,
and watches its process through a schedule that leads to its end; when the removal has been carried
out too there is a result.
-/
namespace HandlerHost.Invoker

open Child (Life Supervisor Termination Terms)

variable {p : Pool} {u v w : Invocation} {n k : Nat} {a : Pool.Action}
  {fault : Option Host.Errno} {call : Call} {slotAt : Option Nat}

namespace Pool

theorem length_settle : (p.apply (.settle 0 fault)).flights.length = p.flights.length - 1 := by
  cases hf : p.flights with
  | nil => simp [apply, settle, hf]
  | cons f fs => simp [apply, settle, hf, update]

theorem attended_settle (k : Nat) (fault : Option Host.Errno) (hp : Attended p n v) :
    ∃ w, Attended (p.apply (.settle k fault)) n w ∧ w.stage = v.stage ∧
      w.cancelled = v.cancelled := by
  obtain ⟨w, es, hf, hw, -⟩ := fate_of_step (step_apply (a := .settle k fault)) hp.there
  obtain ⟨u, hu⟩ := attended_step (step_apply (a := .settle k fault)) hp
  obtain rfl : w = u := Option.some.inj (hw.symm.trans hu.there)
  refine ⟨w, hu, ?_⟩
  cases hf with
  | untouched => exact ⟨rfl, rfl⟩
  | arrived => exact ⟨rfl, rfl⟩
  | cancelled ha => rcases ha with ha | ha <;> cases ha
  | turned ht => cases ht

/-- All operations on their way are carried out, and what an invocation waits for has arrived. -/
theorem attended_settleAll (hp : Attended p n v) :
    p.settleAll.flights = [] ∧
      ∃ w, Attended p.settleAll n w ∧ w.stage = v.stage ∧ w.cancelled = v.cancelled := by
  rw [settleAll]
  generalize hk : p.flights.length = k
  induction k generalizing p v with
  | zero => exact ⟨List.eq_nil_of_length_eq_zero hk, v, hp, rfl, rfl⟩
  | succ k ih =>
    obtain ⟨u, hu, hs, hc⟩ := attended_settle 0 none hp
    obtain ⟨hnone, w, hw, hs', hc'⟩ := ih hu (by rw [length_settle, hk, Nat.add_sub_cancel])
    exact ⟨hnone, w, hw, hs'.trans hs, hc'.trans hc⟩

/-- What carrying out operations makes of an invocation. One that waits for none stays as it is; one
that does comes nearer to its end, and its process, if it is started, has just been. -/
structure Carried (v w : Invocation) : Prop where
  cancelled : w.cancelled = v.cancelled
  kept : v.stage.awaits = false → w.stage = v.stage
  admitted : v.stage.awaits = true → Admitted w.stage
  nearer : v.stage.awaits = true → w.stage.ahead < v.stage.ahead
  fresh : v.stage.awaits = true → ∀ x life s, w.stage = .running x life s → s = v.supervisor

theorem Carried.trans (h : Carried v u) (h' : Carried u w) : Carried v w := by
  have hnearer : w.stage.ahead ≤ u.stage.ahead := by
    cases hu : u.stage.awaits with
    | true => exact Nat.le_of_lt (h'.nearer hu)
    | false => exact Nat.le_of_eq (congrArg Stage.ahead (h'.kept hu))
  have hsupervisor : u.supervisor = v.supervisor := by
    rw [Invocation.supervisor, h.cancelled]
    rfl
  refine ⟨h'.cancelled.trans h.cancelled, ?_, ?_, ?_, ?_⟩
  · intro hv
    exact (h'.kept (by rw [h.kept hv, hv])).trans (h.kept hv)
  · intro hv
    cases hu : u.stage.awaits with
    | true => exact h'.admitted hu
    | false => exact h'.kept hu ▸ h.admitted hv
  · exact fun hv => Nat.lt_of_le_of_lt hnearer (h.nearer hv)
  · intro hv x life s hs
    cases hu : u.stage.awaits with
    | true => exact (h'.fresh hu x life s hs).trans hsupervisor
    | false => exact h.fresh hv x life s ((h'.kept hu).symm.trans hs)

theorem Carried.refl (h : v.stage.awaits = false) : Carried v v :=
  ⟨rfl, fun _ => rfl, fun ha => by simp [h] at ha, fun ha => by simp [h] at ha,
    fun ha => by simp [h] at ha⟩

theorem Carried.of_eq (h : Carried u w) (hs : u.stage = v.stage) (hc : u.cancelled = v.cancelled) :
    Carried v w := by
  obtain ⟨hcancelled, hkept, hadmitted, hnearer, hfresh⟩ := h
  rw [hs] at hkept hadmitted hnearer hfresh
  rw [Invocation.supervisor, hc] at hfresh
  exact ⟨hcancelled.trans hc, hkept, hadmitted, hnearer, hfresh⟩

theorem awaits_of_proceed {es : List Effect} {s : Stage} (ht : Turn p n v (.proceed n fault) es s) :
    v.stage.awaits = true := by
  cases ht with
  | unprovided hs => rcases hs with hs | hs <;> rw [hs] <;> rfl
  | directory hs | first hs | next hs | unwritten hs | start hs | unstarted hs | removed hs =>
    rw [hs]
    rfl

theorem carried_turn {es : List Effect} {s : Stage} (ht : Turn p n v (.proceed n fault) es s) :
    Carried v { v with stage := s, arrived := none } := by
  refine ⟨rfl, fun hv => ?_, fun _ => admitted_of_turn ht, fun _ => ahead_turn ht, ?_⟩
  · rw [awaits_of_proceed ht] at hv
    cases hv
  · intro _ x life sup hs
    cases ht with
    | start =>
      cases hs
      rfl
    | _ => cases hs

/-- The operations on their way are carried out, and the invocation goes on. -/
theorem attended_advance (hp : Attended p n v) :
    ∃ w, Attended (p.settleAll.apply (.proceed n none)) n w ∧ Carried v w := by
  obtain ⟨hnone, u, hu, hs, hc⟩ := attended_settleAll hp
  suffices h : ∃ w, Attended (p.settleAll.apply (.proceed n none)) n w ∧ Carried u w by
    obtain ⟨w, hw, h⟩ := h
    exact ⟨w, hw, h.of_eq hs hc⟩
  cases ha : u.stage.awaits with
  | true =>
    cases hout : u.arrived with
    | none =>
      obtain ⟨f, hf, -⟩ := hu.expected ha hout
      rw [hnone] at hf
      cases hf
    | some out =>
      obtain ⟨es, s, ht, hturn⟩ := turn_proceed (n := n) none ha hout
      refine ⟨_, ?_, carried_turn ht⟩
      rw [apply_proceed hu.there hout, hturn]
      exact attended_turn hu ht
  | false =>
    obtain ⟨w, es, hf, hw, -⟩ := fate_of_step (step_apply (a := .proceed n none)) hu.there
    obtain ⟨w', hw'⟩ := attended_step (step_apply (a := .proceed n none)) hu
    obtain rfl : w = w' := Option.some.inj (hw.symm.trans hw'.there)
    refine ⟨w, hw', ?_⟩
    cases hf with
    | untouched => exact .refl ha
    | cancelled h => rcases h with h | h <;> cases h
    | turned ht => exact carried_turn ht

/-- After as many rounds as an invocation may still wait for operations it waits for none. -/
theorem attended_carryOut (hp : Attended p n v) (hk : v.stage.awaits = true → v.stage.ahead ≤ k) :
    ∃ w, Attended (p.carryOut n k) n w ∧ Carried v w ∧ w.stage.awaits = false := by
  induction k generalizing p v with
  | zero =>
    have ha : v.stage.awaits = false := by
      rw [Bool.eq_false_iff]
      intro ha
      have hpos := ahead_pos ha
      have hle := hk ha
      omega
    exact ⟨v, hp, .refl ha, ha⟩
  | succ k ih =>
    obtain ⟨u, hu, hvu⟩ := attended_advance hp
    have hle : u.stage.awaits = true → u.stage.ahead ≤ k := by
      intro ha
      cases hv : v.stage.awaits with
      | true =>
        have hlt := hvu.nearer hv
        have hle := hk hv
        omega
      | false =>
        rw [hvu.kept hv, hv] at ha
        cases ha
    obtain ⟨w, hw, huw, ha⟩ := ih hu hle
    exact ⟨w, hw, hvu.trans huw, ha⟩

/-- A result that is known stays, whatever is still told of the process. -/
theorem attended_removing {x : Workspace} {r : Result} {ticks : List Supervisor.Tick}
    (hp : Attended p n v) (hs : v.stage = .removing x r) :
    ∃ w, Attended (p.run (ticks.map (.tick n))) n w ∧ w.stage = .removing x r := by
  induction ticks generalizing p v with
  | nil => exact ⟨v, hp, hs⟩
  | cons t ticks ih =>
    obtain ⟨w, es, hf, hw, -⟩ := fate_of_step (step_apply (a := .tick n t)) hp.there
    obtain ⟨u, hu⟩ := attended_step (step_apply (a := .tick n t)) hp
    obtain rfl : w = u := Option.some.inj (hw.symm.trans hu.there)
    refine ih hu ?_
    cases hf with
    | untouched => exact hs
    | cancelled _ => exact congrArg Stage.cancel hs
    | turned ht => cases ht <;> simp_all

/-- A process that is watched to its end leaves its workspace to be removed. -/
theorem attended_ticks {x : Workspace} {life : Life} {sup : Supervisor}
    {ticks : List Supervisor.Tick} {fin : Termination} (hp : Attended p n v)
    (hs : v.stage = .running x life sup) (ht : (sup.run ticks).termination? = some fin) :
    ∃ w r, Attended (p.run (ticks.map (.tick n))) n w ∧ w.stage = .removing x r := by
  induction ticks generalizing p v sup with
  | nil =>
    have hnone : sup.termination? = some fin := ht
    rw [hp.watched x life sup hs] at hnone
    cases hnone
  | cons t ticks ih =>
    obtain ⟨w, hw⟩ := attended_step (step_apply (a := .tick n t)) hp
    by_cases hc : t = .happen .cancelled
    · obtain ⟨hn, -⟩ := apply_cancel hp.there (.inr (congrArg (Action.tick n) hc))
      obtain rfl := Option.some.inj (hw.there.symm.trans hn)
      have hstage : v.stage.cancel = .running x life (sup.tick t) := by
        rw [hs, hc]
        rfl
      exact ih hw hstage ht
    · obtain ⟨es, s, hturn, hq⟩ := turn_tick (p := p) (n := n) (t := t) hs
      have hn := hw.there
      rw [apply_tick hp.there hs hc, hq, getElem?_turn, if_pos rfl, hp.there] at hn
      obtain rfl := Option.some.inj hn
      cases hturn with
      | watch hs' _ =>
        rw [hs] at hs'
        cases hs'
        exact ih hw rfl ht
      | finish hs' _ =>
        rw [hs] at hs'
        cases hs'
        obtain ⟨u, hu, hsu⟩ := attended_removing hw rfl
        exact ⟨u, _, hu, hsu⟩

theorem returned_of_ended (hp : Attended p n v) (hs : Admitted v.stage) (ha : v.stage.ahead = 0) :
    Returned n p := by
  obtain ⟨r, hr⟩ := ended_of_ahead hs.2 ha
  exact ⟨v, r, hp.there, hr⟩

/-- Its process is watched through a schedule, and then its workspace is removed. -/
theorem returned_schedule {x : Workspace} {life : Life} {t : Terms} (hp : Attended p n v)
    (hs : v.stage = .running x life .start) (ht : t.abortAt = none) :
    (life.schedule t).aborted = false ∧
      Returned n ((p.run ((life.schedule t).ticks.map (.tick n))).carryOut n maxOperations) := by
  obtain ⟨hstays, fin, hfin⟩ := life.completes_schedule ht
  obtain ⟨u, r, hu, hremoving⟩ := attended_ticks hp hs hfin
  have hawaits : u.stage.awaits = true := by rw [hremoving]; rfl
  have hahead : u.stage.ahead = 1 := by rw [hremoving]; rfl
  obtain ⟨w, hw, hcarried, -⟩ := attended_carryOut (k := maxOperations) hu fun _ => by
    simp [hahead, maxOperations]
  have hlt := hcarried.nearer hawaits
  exact ⟨hstays, returned_of_ended hw (hcarried.admitted hawaits) (by omega)⟩

/-- What a call is where its process has just been started, if it is. -/
theorem attended_acquire (hp : Attended p n v) (hs : v.stage = .waiting)
    (hc : v.cancelled = false) (hf : 0 < p.free) :
    ∃ w, Attended ((p.apply (.acquire n)).carryOut n maxOperations) n w ∧ Admitted w.stage ∧
      w.stage.awaits = false ∧ ∀ x life sup, w.stage = .running x life sup → sup = .start := by
  obtain ⟨es, s, ht, hq⟩ := turn_acquire (n := n) hs (.inr hf)
  have hu := attended_turn hp ht
  rw [← hq, ← apply_acquire hp.there hs] at hu
  obtain ⟨w, hw, hcarried, hidle⟩ := attended_carryOut (k := maxOperations) hu fun _ => by
    cases ht <;> simp [Stage.ahead, maxOperations]
  cases ha : s.awaits with
  | true =>
    refine ⟨w, hw, hcarried.admitted ha, hidle, fun x life sup hsup => ?_⟩
    rw [hcarried.fresh ha x life sup hsup, Invocation.supervisor]
    exact if_neg (by simp [hc])
  | false =>
    refine ⟨w, hw, hcarried.kept ha ▸ admitted_of_turn ht, hidle, fun x life sup hsup => ?_⟩
    have hkept := hcarried.kept ha
    rw [hsup] at hkept
    cases ht <;> cases hkept

theorem comesBy_of_stay (ht : call.abortAt = none) (time : Nat) :
    comesBy time call.abortAt = true := by
  rw [ht]
  rfl

theorem returned_watchFrom {start : Nat} (hp : Attended p n v) (hs : Admitted v.stage)
    (hidle : v.stage.awaits = false)
    (hfresh : ∀ x life sup, v.stage = .running x life sup → sup = .start)
    (ht : call.abortAt = none) : Returned n (p.watchFrom n call start).1 := by
  cases hstage : v.stage with
  | running x life sup =>
    obtain rfl := hfresh x life sup hstage
    have hterms : (call.terms start (p.timeoutMs v)).abortAt = none := by
      rw [Call.terms, ht]
      rfl
    obtain ⟨hstays, hreturned⟩ := returned_schedule hp hstage hterms
    simp only [watchFrom, hp.there, hstage, hstays, Bool.false_eq_true, if_false]
    exact hreturned
  | waiting => exact absurd hstage hs.1
  | ended e =>
    simp only [watchFrom, hp.there, hstage]
    exact returned_of_ended hp hs (by rw [hstage]; rfl)
  | rooting | making | writing | removing => simp [hstage, Stage.awaits] at hidle

/-- A call that takes a slot and whose caller stays comes to a result. -/
theorem returned_runFrom {start : Nat} (hp : Attended p n v) (hs : v.stage = .waiting)
    (hc : v.cancelled = false) (hf : 0 < p.free) (ht : call.abortAt = none) :
    Returned n (p.runFrom n call start).1 := by
  obtain ⟨w, hw, hadmitted, hidle, hfresh⟩ := attended_acquire hp hs hc hf
  rw [runFrom, if_pos (comesBy_of_stay ht _)]
  exact returned_watchFrom hw hadmitted hidle hfresh ht

/-- A call that is cancelled while it waits comes to a result. -/
theorem returned_cancelled (hp : Attended p n v) (hs : v.stage = .waiting) :
    Returned n ((p.apply (.cancel n)).apply (.acquire n)) := by
  obtain ⟨hv, -⟩ := apply_cancel hp.there (.inl rfl)
  have hwaiting : v.stage.cancel = .waiting := congrArg Stage.cancel hs
  obtain ⟨es, s, ht, hq⟩ := turn_acquire (p := p.apply (.cancel n)) (n := n)
    (v := { v with cancelled := true, stage := v.stage.cancel }) hwaiting (.inl rfl)
  rw [apply_acquire hv hwaiting, hq]
  cases ht with
  | forgo =>
    have hended : ((p.apply (.cancel n)).turn n []
        (.ended (.result (.cancelled [])))).invocations[n]? = _ := getElem?_turn
    rw [if_pos rfl, hv] at hended
    exact ⟨_, .cancelled [], hended, rfl⟩
  | unresolved | root => contradiction

/-- A call whose caller stays gets its slot or is cancelled, if either comes. -/
theorem wait_of_stay (ht : call.abortAt = none) (hc : slotAt = none → call.cancelAt ≠ none) :
    call.wait slotAt = .cancelled ∨ ∃ s, slotAt = some s ∧ call.wait slotAt = .slot s := by
  have hstay := comesBy_of_stay ht
  cases slotAt with
  | none =>
    obtain ⟨time, htime⟩ := Option.ne_none_iff_exists'.mp (hc rfl)
    have hnever : comesBy time none = true := rfl
    exact .inl (by simp [Call.wait, htime, hstay, hnever])
  | some s =>
    cases htime : call.cancelAt with
    | none => exact .inr ⟨s, rfl, by simp [Call.wait, htime, hstay]⟩
    | some time =>
      by_cases hby : comesBy time (some s) = true
      · exact .inl (by simp [Call.wait, htime, hstay, hby])
      · exact .inr ⟨s, rfl, by simp [Call.wait, htime, hstay, hby]⟩

end Pool

end HandlerHost.Invoker
