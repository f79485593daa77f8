import HandlerHost.Proofs.Invoker.Fate
import HandlerHost.Proofs.Invoker.Progress
import HandlerHost.Proofs.Invoker.Slots

/-!
Invocations come to their results. However many others there are, what an invocation waits for is on
its way or has arrived, so a step of its own is always left to take, and few of them lead to its end
whatever befalls its operations. One that finds no slot free has another before it that will give
one back.
-/
namespace HandlerHost.Invoker

open HandlerHost.Host (Errno)
open Child (Life Supervisor)

variable {p q : Pool} {v w : Invocation} {m n : Nat} {a : Pool.Action} {es : List Effect}
  {s : Stage} {ms : List Move}

theorem Stage.awaits_cancel : s.cancel.awaits = s.awaits := by cases s <;> rfl

theorem Stage.holdsSlot_cancel : s.cancel.holdsSlot = s.holdsSlot := by cases s <;> rfl

theorem Stage.cancel_eq_running {w : Workspace} {life : Life} {sup : Supervisor}
    (h : s.cancel = .running w life sup) :
    ∃ sup', s = .running w life sup' ∧ sup = sup'.happen .cancelled := by
  cases s with
  | running w life s =>
    cases h
    exact ⟨s, rfl, rfl⟩
  | _ => cases h

namespace Pool

/-- What an invocation waits for is on its way or has arrived, and its process is watched until that
is over. -/
structure Attended (p : Pool) (n : Nat) (v : Invocation) : Prop where
  there : p.invocations[n]? = some v
  expected : v.stage.awaits = true → v.arrived = none → ∃ f ∈ p.flights, f.owner = n
  watched : ∀ w life s, v.stage = .running w life s → s.termination? = none

/-- A stage that awaits an operation is entered with one. -/
theorem operation_of_turn (ht : Turn p n v a es s) (hs : s.awaits = true) :
    ∃ o, o ∈ es.filterMap Effect.operation? := by
  cases ht with
  | finish =>
    rw [List.filterMap_append]
    exact ⟨_, List.mem_append_right _ (List.mem_singleton_self _)⟩
  | forgo | unresolved | unprovided | start | removed | watch => cases hs
  | _ => exact ⟨_, List.mem_singleton_self _⟩

theorem attended_start {r : Request} {id : WorkspaceId}
    (hv : p.invocations[n]? = some (.start r id)) : Attended p n (.start r id) := by
  refine ⟨hv, fun hs => ?_, fun w life s hs => ?_⟩
  · cases hs
  · cases hs

theorem watched_of_fate (hf : Fate p n v a es w)
    (hv : ∀ x life s, v.stage = .running x life s → s.termination? = none) :
    ∀ x life s, w.stage = .running x life s → s.termination? = none := by
  intro x life sup hs
  cases hf with
  | untouched => exact hv x life sup hs
  | arrived => exact hv x life sup hs
  | cancelled _ =>
    obtain ⟨sup', hs', rfl⟩ := Stage.cancel_eq_running hs
    exact hv x life sup' hs'
  | turned ht => exact watched_of_turn ht hs
  | aborted _ => cases hs

theorem attended_step (h : Step p a q) (hp : Attended p n v) : ∃ w, Attended q n w := by
  obtain ⟨w, es, hw, hq, -, hflights⟩ := fate_of_step h hp.there
  refine ⟨w, hq, fun hs ha => ?_, watched_of_fate hw hp.watched⟩
  have hstill : v.stage.awaits = true → v.arrived = none → ∃ f ∈ q.flights, f.owner = n := by
    intro hs hnone
    obtain ⟨f, hf, ho⟩ := hp.expected hs hnone
    rcases flight_of_step h hp.there hf ho with hf | ⟨u, hu, harrived⟩
    · exact ⟨f, hf, ho⟩
    · obtain rfl : w = u := Option.some.inj (hq.symm.trans hu)
      exact absurd ha harrived
  cases hw with
  | untouched => exact hstill hs ha
  | arrived => cases ha
  | cancelled _ => exact hstill (Stage.awaits_cancel.symm.trans hs) ha
  | turned ht =>
    obtain ⟨o, ho⟩ := operation_of_turn ht hs
    exact ⟨_, hflights o ho, rfl⟩
  | aborted _ => cases hs

theorem attended_play {c : Config} {h : Host} (hp : ofConfig? c h = some p)
    (hv : (p.play ms).invocations[n]? = some v) : Attended (p.play ms) n v := by
  refine play_each (P := Attended) hp (fun hv _ => attended_start hv) ?_ ?_ hv
  · intro p a q n v _ hv hq
    obtain ⟨w, hw⟩ := attended_step hq hv
    exact ⟨w, hw.there, hw⟩
  · exact fun hv => ⟨hv.there, hv.expected, hv.watched⟩

theorem attended_turn (hp : Attended p n v) (ht : Turn p n v a es s) :
    Attended (p.turn n es s) n { v with stage := s, arrived := none } := by
  obtain ⟨w, hw⟩ := attended_step (.turn hp.there ht) hp
  have hn := hw.there
  rw [getElem?_turn, if_pos rfl, hp.there] at hn
  obtain rfl := Option.some.inj hn
  exact hw

/-- An invocation has come to a result. -/
def Returned (n : Nat) (p : Pool) : Prop :=
  ∃ v r, p.invocations[n]? = some v ∧ v.stage = .ended (.result r)

/-- By steps of its own an invocation brings a pool to such a state, whatever befalls its
operations. -/
inductive Comes (n : Nat) (P : Pool → Prop) : Pool → Prop
  | here {p : Pool} (h : P p) : Comes n P p
  | acquire {p : Pool} (h : Comes n P (p.apply (.acquire n))) : Comes n P p
  | settle {p : Pool} {k : Nat} {f : Flight} (hf : p.flights[k]? = some f) (ho : f.owner = n)
      (h : ∀ fault, Comes n P (p.apply (.settle k fault))) : Comes n P p
  | proceed {p : Pool} (h : ∀ fault, Comes n P (p.apply (.proceed n fault))) : Comes n P p
  | tick {p : Pool} (t : Supervisor.Tick) (h : Comes n P (p.apply (.tick n t))) : Comes n P p

/-- The actions of such steps. -/
inductive Advances (n : Nat) : Action → Prop
  | acquire : Advances n (.acquire n)
  | settle {k : Nat} {fault : Option Errno} : Advances n (.settle k fault)
  | proceed {fault : Option Errno} : Advances n (.proceed n fault)
  | tick {t : Supervisor.Tick} : Advances n (.tick n t)

/-- What these actions preserve still holds in the end. -/
theorem Comes.keep {P Q R : Pool → Prop} (h : Comes n P p) (hp : Q p)
    (hs : ∀ {p a}, Advances n a → Q p → Q (p.apply a)) (hR : ∀ {p}, P p → Q p → R p) :
    Comes n R p := by
  induction h with
  | here h => exact .here (hR h hp)
  | acquire _ ih => exact .acquire (ih (hs .acquire hp))
  | settle hf ho _ ih => exact .settle hf ho fun fault => ih fault (hs .settle hp)
  | proceed _ ih => exact .proceed fun fault => ih fault (hs .proceed hp)
  | tick t _ ih => exact .tick t (ih (hs .tick hp))

/-- The outcome of an operation arrives, and the invocation goes on. -/
theorem comes_round {k : Nat}
    (hless : ∀ {p : Pool} {v : Invocation}, Attended p n v → Admitted v.stage → v.stage.ahead < k →
      Comes n (Returned n) p)
    (hp : Attended p n v) (hs : v.stage.awaits = true) (hk : v.stage.ahead ≤ k) :
    Comes n (Returned n) p := by
  have hgo : ∀ {p : Pool} {v : Invocation} {out : Operation.Outcome}, Attended p n v →
      v.stage.awaits = true → v.stage.ahead ≤ k → v.arrived = some out →
      Comes n (Returned n) p := by
    intro p v out hp hs hk ha
    refine .proceed fun fault => ?_
    obtain ⟨es, s, ht, hq⟩ := turn_proceed (n := n) fault hs ha
    rw [apply_proceed hp.there ha, hq]
    exact hless (attended_turn hp ht) (admitted_of_turn ht) (Nat.lt_of_lt_of_le (ahead_turn ht) hk)
  cases ha : v.arrived with
  | some out => exact hgo hp hs hk ha
  | none =>
    obtain ⟨f, hf, ho⟩ := hp.expected hs ha
    obtain ⟨i, hi⟩ := List.mem_iff_getElem?.mp hf
    refine .settle hi ho fun fault => ?_
    obtain ⟨w, hw⟩ := attended_step (step_apply (a := .settle i fault)) hp
    have hn := hw.there
    simp only [apply, settle, hi] at hn
    rw [getElem?_update, if_pos ho] at hn
    have hv : some { v with arrived := some (f.operation.attempt p.host fault).2 } = some w :=
      (congrArg (Option.map _) hp.there).symm.trans hn
    obtain rfl := Option.some.inj hv
    exact hgo hw hs hk rfl

theorem comes_removing {w : Workspace} {r : Result} (hp : Attended p n v)
    (hs : v.stage = .removing w r) : Comes n (Returned n) p := by
  have hend : ∀ {p : Pool} {v : Invocation}, Attended p n v → Admitted v.stage → v.stage.ahead < 1 →
      Comes n (Returned n) p := by
    intro p v hp hk hlt
    obtain ⟨r, hr⟩ := ended_of_ahead hk.2 (by omega)
    exact .here ⟨v, r, hp.there, hr⟩
  exact comes_round hend hp (by rw [hs]; rfl) (by rw [hs]; exact Nat.le_refl _)

theorem comes_ticks {w : Workspace} {life : Life} {sup : Supervisor} {ticks : List Supervisor.Tick}
    {t : Child.Termination} (hp : Attended p n v) (hs : v.stage = .running w life sup)
    (hc : ∀ t ∈ ticks, t ≠ .happen .cancelled) (ht : (sup.run ticks).termination? = some t) :
    Comes n (Returned n) p := by
  induction ticks generalizing p v sup with
  | nil =>
    have hnone : sup.termination? = some t := ht
    rw [hp.watched w life sup hs] at hnone
    cases hnone
  | cons tick ticks ih =>
    obtain ⟨hc, hcs⟩ := List.forall_mem_cons.mp hc
    obtain ⟨es, s, hturn, hq⟩ := turn_tick (p := p) (n := n) (t := tick) hs
    refine .tick tick ?_
    rw [apply_tick hp.there hs hc, hq]
    have hp' := attended_turn hp hturn
    cases hturn with
    | watch hs' _ =>
      rw [hs] at hs'
      cases hs'
      exact ih hp' rfl hcs ht
    | finish hs' _ => exact comes_removing hp' rfl

/-- Once it has a slot, an invocation comes to its result. -/
theorem comes_of_admitted (hp : Attended p n v) (hk : Admitted v.stage) :
    Comes n (Returned n) p := by
  induction hm : v.stage.ahead using Nat.strongRecOn generalizing p v with
  | ind m ih =>
    cases hs : v.stage with
    | waiting => exact absurd hs hk.1
    | ended e =>
      obtain ⟨r, hr⟩ := ended_of_ahead hk.2 (by rw [hs]; rfl)
      exact .here ⟨v, r, hp.there, hr⟩
    | running w life sup =>
      obtain ⟨t, ht⟩ := Supervisor.termination_closing .unknown (Nat.lt_succ_self _)
      exact comes_ticks hp hs closing_uncancelled ht
    | _ =>
      refine comes_round (k := m) ?_ hp (by rw [hs]; rfl) (Nat.le_of_eq hm)
      intro p v hp hk hlt
      exact ih _ hlt hp hk rfl

/-- An invocation whose caller stays comes to its result if there is a slot for it, or it has been
cancelled. -/
theorem comes (hp : Attended p n v) (ha : v.stage ≠ .ended .aborted)
    (hf : v.stage = .waiting → v.cancelled = true ∨ 0 < p.free) : Comes n (Returned n) p := by
  by_cases hs : v.stage = .waiting
  · obtain ⟨es, s, ht, hq⟩ := turn_acquire (n := n) hs (hf hs)
    refine .acquire ?_
    rw [apply_acquire hp.there hs, hq]
    exact comes_of_admitted (attended_turn hp ht) (admitted_of_turn ht)
  · exact comes_of_admitted hp ⟨hs, ha⟩

/-- What an invocation does by itself moves slots between it and the free ones. -/
theorem share_step (ha : Advances m a) (hv : p.invocations[m]? = some v) (h : Step p a q) :
    ∃ w, q.invocations[m]? = some w ∧
      q.free + w.stage.holdsSlot.toNat = p.free + v.stage.holdsSlot.toNat := by
  cases h with
  | idle => exact ⟨v, hv, rfl⟩
  | accept => cases ha
  | settle =>
    rw [getElem?_update, hv]
    split
    · exact ⟨_, rfl, rfl⟩
    · exact ⟨v, rfl, rfl⟩
  | cancel =>
    rw [getElem?_update, hv]
    split
    · exact ⟨_, rfl, congrArg (fun b => p.free + b.toNat) Stage.holdsSlot_cancel⟩
    · exact ⟨v, rfl, rfl⟩
  | @turn _ n u es s hu ht =>
    obtain rfl : n = m := by cases ha <;> cases ht <;> rfl
    obtain rfl : u = v := Option.some.inj (hu.symm.trans hv)
    have hbalance := balance_turn hu (slotTurn_of_turn ht)
    have hheld : (p.turn n es s).held + u.stage.holdsSlot.toNat = p.held + s.holdsSlot.toNat :=
      held_turn hu
    rw [getElem?_turn, if_pos rfl, hv]
    exact ⟨_, rfl, by dsimp only; omega⟩
  | abort => cases ha

theorem present_step (ha : Advances m a) (h : Step p a q) (hp : Attended p n v)
    (hs : v.stage ≠ .ended .aborted) : ∃ w, Attended q n w ∧ w.stage ≠ .ended .aborted := by
  obtain ⟨w, es, hf, hw, -⟩ := fate_of_step h hp.there
  obtain ⟨u, hu⟩ := attended_step h hp
  obtain rfl : w = u := Option.some.inj (hw.symm.trans hu.there)
  refine ⟨w, hu, ?_⟩
  cases hf with
  | untouched => exact hs
  | arrived => exact hs
  | cancelled _ =>
    intro he
    cases hst : v.stage <;> simp_all [Stage.cancel]
  | turned ht => exact (admitted_of_turn ht).2
  | aborted _ => cases ha

/-- An invocation comes to a result once another that holds a slot has given it back. -/
theorem comes_after (hall : ∀ m w, p.invocations[m]? = some w → Attended p m w)
    (hheld : 0 < p.held) (hp : Attended p n v)
    (ha : v.stage ≠ .ended .aborted) : ∃ m, Comes m (Comes n (Returned n)) p := by
  obtain ⟨w, hmem, hw⟩ := List.countP_pos_iff.mp hheld
  obtain ⟨m, hm⟩ := List.mem_iff_getElem?.mp hmem
  have hadmitted : Admitted w.stage := by
    constructor <;> intro he <;> simp [he] at hw
  refine ⟨m, (comes_of_admitted (hall m w hm) hadmitted).keep
    (Q := fun q => (∃ v, Attended q n v ∧ v.stage ≠ .ended .aborted) ∧
      ∃ w, q.invocations[m]? = some w ∧ 0 < q.free + w.stage.holdsSlot.toNat) ?_ ?_ ?_⟩
  · refine ⟨⟨v, hp, ha⟩, w, hm, ?_⟩
    rw [hw]
    exact Nat.succ_pos _
  · rintro q a hadv ⟨⟨u, hu, hua⟩, w, hw, hpos⟩
    obtain ⟨w', hw', hshare⟩ := share_step hadv hw step_apply
    exact ⟨present_step hadv step_apply hu hua, w', hw', hshare ▸ hpos⟩
  · rintro q ⟨w', r, hw', hended⟩ ⟨⟨u, hu, hua⟩, w, hw, hpos⟩
    obtain rfl : w = w' := Option.some.inj (hw.symm.trans hw')
    rw [hended] at hpos
    exact comes hu hua fun _ => .inr hpos

theorem slots_play {c : Config} {h : Host} (hp : ofConfig? c h = some p) :
    (p.play ms).free + (p.play ms).held = c.maxConcurrent.toNat := by
  refine play_invariant (P := fun q => q.free + q.held = c.maxConcurrent.toNat) ?_ ?_ fun h => h
  · obtain rfl := eq_of_ofConfig? hp
    rfl
  · exact fun hp hs => (balance_step hs).trans hp

/-- In a pool that starts at rest and has slots, every invocation whose caller stays comes to a
result, if need be after another has given its slot back. -/
theorem comes_returned {c : Config} {h : Host} (hp : ofConfig? c h = some p)
    (hv : (p.play ms).invocations[n]? = some v) (ha : v.stage ≠ .ended .aborted)
    (hc : v.stage = .waiting → v.cancelled = true ∨ 0 < c.maxConcurrent.toNat) :
    ∃ m, Comes m (Comes n (Returned n)) (p.play ms) := by
  have hv := attended_play hp hv
  by_cases hf : v.stage = .waiting → v.cancelled = true ∨ 0 < (p.play ms).free
  · exact ⟨n, .here (comes hv ha hf)⟩
  · obtain ⟨hs, hf⟩ := Classical.not_imp.mp hf
    obtain ⟨hcancelled, hf⟩ := not_or.mp hf
    have hslots := (hc hs).resolve_left hcancelled
    have hbalance : (p.play ms).free + (p.play ms).held = c.maxConcurrent.toNat := slots_play hp
    exact comes_after (fun m w => attended_play hp) (by omega) hv ha

end Pool

end HandlerHost.Invoker
