import HandlerHost.Proofs.Invoker.Flights
import Mathlib

/-!
Slots are conserved. Whatever steps the invocations of a pool make, and in whatever order, a slot is
free or held by one invocation. What an invocation does to files and processes stands between the
slot it takes and the slot it gives back.
-/
namespace HandlerHost.Invoker

open Host (FileSystem)
open Text (Dictionary)

variable {p q : Pool} {v : Invocation} {m n : Nat} {a : Pool.Action} {as : List Pool.Action}
  {e : Effect} {es us : List Effect} {s t : Stage}

/-- An effect on the files or on a process. -/
def Effect.isUse : Effect → Bool
  | slotTaken => false
  | slotReturned => false
  | _ => true

/-- What a turn does to slots when some are free: from a stage, by effects, to another stage. -/
inductive SlotTurn (free : Nat) : Stage → List Effect → Stage → Prop
  | forgo {r : Ending} : SlotTurn free .waiting [] (.ended r)
  | pass {r : Ending} (hf : 0 < free) :
      SlotTurn free .waiting [.slotTaken, .slotReturned] (.ended r)
  | take {us : List Effect} {t : Stage} (hf : 0 < free) (hu : ∀ e ∈ us, e.isUse = true)
      (ht : t.holdsSlot = true) : SlotTurn free .waiting (.slotTaken :: us) t
  | keep {s : Stage} {us : List Effect} {t : Stage} (hs : s.holdsSlot = true)
      (hu : ∀ e ∈ us, e.isUse = true) (ht : t.holdsSlot = true) : SlotTurn free s us t
  | give {s : Stage} (us : List Effect) {r : Ending} (hs : s.holdsSlot = true)
      (hu : ∀ e ∈ us, e.isUse = true) : SlotTurn free s (us ++ [.slotReturned]) (.ended r)

/-- The effects of an invocation in a stage, or of none: nothing before it has a slot, then the slot
is taken, then come its uses, and at its end the slot is returned. -/
inductive Ledger : Option Stage → List Effect → Prop
  | absent : Ledger none []
  | waiting : Ledger (some .waiting) []
  | forgone {r : Ending} : Ledger (some (.ended r)) []
  | holding {s : Stage} {us : List Effect} (hs : s.holdsSlot = true)
      (hu : ∀ e ∈ us, e.isUse = true) : Ledger (some s) (.slotTaken :: us)
  | closed {r : Ending} (us : List Effect) (hu : ∀ e ∈ us, e.isUse = true) :
      Ledger (some (.ended r)) (.slotTaken :: us ++ [.slotReturned])

theorem killing_isUse {s s' : Child.Supervisor} : ∀ e ∈ killing s s', e.isUse = true := by
  intro e he
  unfold killing at he
  split at he
  · rw [List.mem_singleton.mp he]
    rfl
  · cases he

namespace Pool

/-- How many invocations hold a slot. -/
def held (p : Pool) : Nat := p.invocations.countP fun v => v.stage.holdsSlot

theorem slotTurn_of_turn (h : Turn p n v a es s) : SlotTurn p.free v.stage es s := by
  cases h with
  | forgo hs _ =>
    rw [hs]
    exact .forgo
  | unresolved hs _ hf _ =>
    rw [hs]
    exact .pass hf
  | root hs _ hf _ =>
    rw [hs]
    exact .take hf (by simp [Effect.isUse]) rfl
  | unprovided hs _ =>
    refine .give [] ?_ (by simp)
    rcases hs with hs | hs <;> simp [hs, Stage.holdsSlot]
  | directory hs _ | first hs _ _ _ | next hs _ | unwritten hs _ | start hs _ _
  | unstarted hs _ _ =>
    exact .keep (by simp [hs, Stage.holdsSlot]) (by simp [Effect.isUse]) rfl
  | removed hs _ => exact .give [] (by simp [hs, Stage.holdsSlot]) (by simp)
  | watch hs _ => exact .keep (by simp [hs, Stage.holdsSlot]) killing_isUse rfl
  | finish hs _ =>
    refine .keep (by simp [hs, Stage.holdsSlot]) ?_ rfl
    intro e he
    rcases List.mem_append.mp he with he | he
    · exact killing_isUse e he
    · simp only [List.mem_cons, List.not_mem_nil, or_false] at he
      rcases he with rfl | rfl <;> rfl

theorem slotTurn_farewell {free : Nat} (hs : s.isEnded = false) :
    SlotTurn free s s.farewell (.ended .aborted) := by
  cases s with
  | waiting => exact .forgo
  | ended r => cases hs
  | running w life s =>
    rw [Stage.farewell]
    split
    · exact .give [.removal] rfl (by simp [Effect.isUse])
    · exact .give [.groupKilled, .removal] rfl (by simp [Effect.isUse])
  | writing i w rest => exact .give [.removal] rfl (by simp [Effect.isUse])
  | _ => exact .give [] rfl (by simp)

theorem held_update {f : Invocation → Invocation} (hv : p.invocations[n]? = some v) :
    (p.update n f).held + v.stage.holdsSlot.toNat = p.held + (f v).stage.holdsSlot.toNat := by
  obtain ⟨hn, rfl⟩ := List.getElem?_eq_some_iff.mp hv
  obtain ⟨before, w, after, hl, hlen, hm⟩ := List.exists_of_modify f hn
  have hw : p.invocations[n] = w := by
    subst hlen
    simp [hl]
  rw [hw, held, held, update, hm, hl]
  simp only [List.countP_append, List.countP_cons]
  cases w.stage.holdsSlot <;> cases (f w).stage.holdsSlot <;> simp <;> omega

theorem held_update_of_same {f : Invocation → Invocation}
    (h : ∀ v, (f v).stage.holdsSlot = v.stage.holdsSlot) : (p.update n f).held = p.held := by
  cases hv : p.invocations[n]? with
  | none =>
    have hn : p.invocations.length ≤ n := List.getElem?_eq_none_iff.mp hv
    rw [update, List.modify_eq_self hn]
  | some v =>
    have hu := held_update (f := f) hv
    rw [h] at hu
    omega

theorem held_turn (hv : p.invocations[n]? = some v) :
    (p.turn n es t).held + v.stage.holdsSlot.toNat = p.held + t.holdsSlot.toNat := by
  have hi : (es.foldl (emit n) p).invocations[n]? = some v := by rwa [foldl_emit_invocations]
  have hh : (es.foldl (emit n) p).held = p.held := by rw [held, foldl_emit_invocations, held]
  have hu := held_update (f := fun v => { v with stage := t, arrived := none }) hi
  rw [hh] at hu
  exact hu

theorem free_foldl_emit (hu : ∀ e ∈ us, e.isUse = true) : (us.foldl (emit n) p).free = p.free := by
  induction us generalizing p with
  | nil => rfl
  | cons e us ih =>
    obtain ⟨he, hus⟩ := List.forall_mem_cons.mp hu
    rw [List.foldl_cons, ih hus]
    cases e with
    | slotTaken => cases he
    | slotReturned => cases he
    | _ => rfl

/-- A turn takes a slot from the free ones, keeps it or gives it back. -/
theorem balance_turn (hv : p.invocations[n]? = some v) (ht : SlotTurn p.free v.stage es t) :
    (p.turn n es t).free + (p.turn n es t).held = p.free + p.held := by
  have hh : (p.turn n es t).held + v.stage.holdsSlot.toNat = p.held + t.holdsSlot.toNat :=
    held_turn hv
  have hfree : (p.turn n es t).free = (es.foldl (emit n) p).free := rfl
  generalize v.stage = s at ht hh
  cases ht with
  | forgo =>
    rw [hfree, List.foldl_nil]
    simpa using hh
  | pass hf =>
    have hp : ([.slotTaken, .slotReturned].foldl (emit n) p).free = p.free - 1 + 1 := rfl
    simp only [Stage.holdsSlot_waiting, Stage.holdsSlot_ended] at hh
    omega
  | take hf hu ht =>
    have hp : (emit n p .slotTaken).free = p.free - 1 := rfl
    rw [List.foldl_cons, free_foldl_emit hu, hp] at hfree
    simp only [Stage.holdsSlot_waiting, ht, Bool.toNat_false, Bool.toNat_true] at hh
    omega
  | keep hs hu ht =>
    rw [free_foldl_emit hu] at hfree
    rw [hs, ht] at hh
    omega
  | @give s us _ hs hu =>
    have hp : (emit n (us.foldl (emit n) p) .slotReturned).free =
        (us.foldl (emit n) p).free + 1 := rfl
    rw [List.foldl_append, List.foldl_cons, List.foldl_nil, hp, free_foldl_emit hu] at hfree
    simp only [Stage.holdsSlot_ended, hs, Bool.toNat_false, Bool.toNat_true] at hh
    omega

/-- The free slots and the held ones are as many after a step as before. -/
theorem balance_step (h : Step p a q) : q.free + q.held = p.free + p.held := by
  cases h with
  | idle => rfl
  | accept hr => simp [held, Invocation.start, Stage.holdsSlot]
  | settle hf hr =>
    refine congrArg (p.free + ·) ?_
    exact held_update_of_same fun v => rfl
  | cancel hv ha =>
    refine congrArg (p.free + ·) ?_
    exact held_update_of_same fun v => by cases v.stage <;> rfl
  | turn hv ht => exact balance_turn hv (slotTurn_of_turn ht)
  | abort hv hs => exact balance_turn hv (slotTurn_farewell hs)

/-- The stage of an invocation, if there is one. -/
def stage? (p : Pool) (n : Nat) : Option Stage := p.invocations[n]?.map Invocation.stage

theorem stage?_turn (hv : p.invocations[n]? = some v) :
    (p.turn n es t).stage? m = if n = m then some t else p.stage? m := by
  rw [stage?, getElem?_turn]
  split
  · rename_i h
    subst h
    rw [hv]
    rfl
  · rfl

/-- A new invocation comes after those that are there. -/
theorem stage?_accept {w : Invocation} : stage? { p with invocations := p.invocations ++ [w] } m =
    if m = p.invocations.length then some w.stage else p.stage? m := by
  rw [stage?, stage?]
  split
  · rename_i hm
    rw [hm, List.getElem?_concat_length]
    rfl
  · rename_i hm
    by_cases hlt : m < p.invocations.length
    · rw [List.getElem?_append_left hlt]
    · have hle : p.invocations.length + 1 ≤ m := by omega
      rw [List.getElem?_eq_none (by simpa using hle), List.getElem?_eq_none (by omega)]

theorem ledger_cancel (h : Ledger (some s) es) : Ledger (some s.cancel) es := by
  cases s with
  | running w life s =>
    cases h with
    | holding hs hu => exact .holding rfl hu
  | _ => exact h

theorem eq_nil_of_absent (h : Ledger none es) : es = [] := by
  cases h
  rfl

theorem eq_nil_of_waiting (h : Ledger (some .waiting) es) : es = [] := by
  cases h with
  | waiting => rfl
  | holding hs _ => cases hs

/-- A turn continues the ledger of its invocation. -/
theorem ledger_turn {free : Nat} (h : Ledger (some s) us) (ht : SlotTurn free s es t) :
    Ledger (some t) (us ++ es) := by
  have hholding : s.holdsSlot = true →
      ∃ us', us = .slotTaken :: us' ∧ ∀ e ∈ us', e.isUse = true := by
    intro hs
    cases h with
    | waiting => cases hs
    | forgone => cases hs
    | holding _ hu => exact ⟨_, rfl, hu⟩
    | closed _ _ => cases hs
  cases ht with
  | forgo =>
    rw [eq_nil_of_waiting h]
    exact .forgone
  | pass _ =>
    rw [eq_nil_of_waiting h]
    exact .closed [] (by simp)
  | take _ hu ht =>
    rw [eq_nil_of_waiting h]
    exact .holding ht hu
  | keep hs hu ht =>
    obtain ⟨us', rfl, hu'⟩ := hholding hs
    refine .holding ht ?_
    intro e he
    exact (List.mem_append.mp he).elim (hu' e) (hu e)
  | give us hs hu =>
    obtain ⟨us', rfl, hu'⟩ := hholding hs
    rw [List.cons_append, ← List.append_assoc]
    refine .closed (us' ++ us) ?_
    intro e he
    exact (List.mem_append.mp he).elim (hu' e) (hu e)

theorem ledgers_turn (hv : p.invocations[n]? = some v)
    (ht : SlotTurn p.free v.stage es t) (hl : ∀ m, Ledger (p.stage? m) (p.trace m)) :
    ∀ m, Ledger ((p.turn n es t).stage? m) ((p.turn n es t).trace m) := by
  intro m
  rw [stage?_turn hv, trace_turn]
  by_cases hm : n = m
  · subst hm
    have hn : Ledger (p.stage? n) (p.trace n) := hl n
    rw [stage?, hv] at hn
    simp only [if_true]
    exact ledger_turn hn ht
  · simp only [hm, if_false, List.append_nil]
    exact hl m

theorem ledger_step (h : Step p a q) (hl : ∀ m, Ledger (p.stage? m) (p.trace m)) :
    ∀ m, Ledger (q.stage? m) (q.trace m) := by
  cases h with
  | idle => exact hl
  | accept hr =>
    intro m
    have hm : Ledger (p.stage? m) (p.trace m) := hl m
    rw [stage?_accept]
    split
    · rename_i hlen
      have hnone : p.stage? m = none := by
        rw [stage?, hlen, List.getElem?_length]
        rfl
      rw [hnone] at hm
      change Ledger _ (p.trace m)
      rw [eq_nil_of_absent hm]
      exact .waiting
    · exact hm
  | @settle k fault f h r hf hr =>
    intro m
    have hm : Ledger (p.stage? m) (p.trace m) := hl m
    rw [stage?, getElem?_update]
    split
    · rw [Option.map_map]
      exact hm
    · exact hm
  | @cancel a n v hv ha =>
    intro m
    have hm : Ledger (p.stage? m) (p.trace m) := hl m
    rw [stage?, getElem?_update]
    split
    · rename_i hn
      subst hn
      rw [stage?, hv] at hm
      rw [hv]
      exact ledger_cancel hm
    · exact hm
  | turn hv ht => exact ledgers_turn hv (slotTurn_of_turn ht) hl
  | abort hv hs => exact ledgers_turn hv (slotTurn_farewell hs) hl

/-- An invocation that was cancelled while it waited for a slot, or is over by now, and has not had
any effect. -/
def Forgone (p : Pool) (n : Nat) : Prop :=
  (∃ v, p.invocations[n]? = some v ∧
    (v.stage = .waiting ∧ v.cancelled = true ∨ v.stage.isEnded = true)) ∧ p.trace n = []

/-- Only an invocation that is not cancelled takes a slot. -/
theorem forgo_of_turn (ht : Turn p n v a es s) (hs : v.stage = .waiting)
    (hc : v.cancelled = true) : es = [] ∧ s.isEnded = true := by
  cases ht with
  | forgo _ _ => exact ⟨rfl, rfl⟩
  | unprovided hs' _ => rcases hs' with hs' | hs' <;> simp [hs'] at hs
  | _ => simp_all

theorem forgone_turn (hv : p.invocations[m]? = some v) (he : v.stage.isEnded = false)
    (hw : v.stage = .waiting → v.cancelled = true → es = [] ∧ s.isEnded = true)
    (h : Forgone p n) : Forgone (p.turn m es s) n := by
  obtain ⟨⟨w, hw', hs⟩, htrace⟩ := h
  rw [Forgone, getElem?_turn, trace_turn, htrace]
  by_cases hm : m = n
  · subst hm
    obtain rfl : v = w := Option.some.inj (hv.symm.trans hw')
    obtain ⟨rfl, hend⟩ : es = [] ∧ s.isEnded = true := by
      rcases hs with ⟨hs, hc⟩ | hs
      · exact hw hs hc
      · rw [he] at hs
        cases hs
    simp only [if_true, hv, Option.map_some]
    exact ⟨⟨_, rfl, .inr hend⟩, rfl⟩
  · simp only [hm, if_false]
    exact ⟨⟨w, hw', hs⟩, rfl⟩

theorem forgone_step (h : Step p a q) (hf : Forgone p n) : Forgone q n := by
  have ⟨⟨w, hw, hs⟩, htrace⟩ := hf
  cases h with
  | idle => exact hf
  | accept hr => exact ⟨⟨w, getElem?_accept hw, hs⟩, htrace⟩
  | settle hk hr =>
    refine ⟨?_, htrace⟩
    rw [getElem?_update]
    split
    · change ∃ v, p.invocations[n]?.map _ = some v ∧ _
      rw [hw]
      exact ⟨_, rfl, hs⟩
    · exact ⟨w, hw, hs⟩
  | cancel hv ha =>
    refine ⟨?_, htrace⟩
    rw [getElem?_update]
    split
    · rw [hw]
      refine ⟨_, rfl, ?_⟩
      rcases hs with ⟨hs, hc⟩ | hs
      · exact .inl ⟨congrArg Stage.cancel hs, rfl⟩
      · cases hstage : w.stage <;> simp_all [Stage.cancel, Stage.isEnded]
    · exact ⟨w, hw, hs⟩
  | turn hv ht => exact forgone_turn hv (turn_ready ht).1 (forgo_of_turn ht) hf
  | @abort m v hv he =>
    have hwaiting : v.stage = .waiting → v.cancelled = true → v.stage.farewell = [] ∧
        (Stage.ended .aborted).isEnded = true := by
      intro hs _
      rw [hs]
      exact ⟨rfl, rfl⟩
    have hhost : Forgone { p with host := v.stage.abandon p.host } n := hf
    exact forgone_turn hv he hwaiting hhost

/-- Files change when an operation is carried out, and when an invocation that holds a slot gives
its workspace up because its caller goes away. -/
theorem host_step (h : Step p a q) : q.host = p.host ∨
    (∃ k fault f, a = .settle k fault ∧ p.flights[k]? = some f) ∨
    ∃ n v, a = .abort n ∧ p.invocations[n]? = some v ∧ v.stage.holdsSlot = true := by
  cases h with
  | idle => exact .inl rfl
  | accept _ => exact .inl rfl
  | settle hk _ => exact .inr (.inl ⟨_, _, _, rfl, hk⟩)
  | cancel _ _ => exact .inl rfl
  | turn _ _ => exact .inl host_turn
  | @abort n v hv he =>
    rw [host_turn]
    cases hs : v.stage with
    | waiting => exact .inl rfl
    | ended r => simp [hs, Stage.isEnded] at he
    | _ => exact .inr (.inr ⟨n, v, rfl, hv, by simp [hs, Stage.holdsSlot]⟩)

/-- A use between the ends of a ledger comes after the slot is taken and before it is returned. -/
theorem bracketed {before after last : List Effect} (hus : ∀ e ∈ us, e.isUse = true)
    (hlast : ∀ e ∈ last, e.isUse = false) (he : .slotTaken :: us ++ last = before ++ e :: after)
    (hu : e.isUse = true) : .slotTaken ∈ before ∧ .slotReturned ∉ before := by
  cases before with
  | nil =>
    obtain ⟨rfl, -⟩ := List.cons.inj he
    cases hu
  | cons b before =>
    obtain ⟨rfl, htail⟩ := List.cons.inj he
    refine ⟨List.mem_cons_self, ?_⟩
    intro hmem
    have hmem : .slotReturned ∈ before := (List.mem_cons.mp hmem).resolve_left nofun
    rcases List.append_eq_append_iff.mp htail with ⟨middle, -, hl⟩ | ⟨middle, hus', -⟩
    · have hno := hlast e (by simp [hl])
      rw [hu] at hno
      cases hno
    · have hyes := hus .slotReturned (by simp [hus', hmem])
      cases hyes

theorem bracketed_of_ledger {o : Option Stage} (h : Ledger o es) {before after : List Effect}
    (he : es = before ++ e :: after) (hu : e.isUse = true) :
    .slotTaken ∈ before ∧ .slotReturned ∉ before := by
  cases h with
  | absent => simp at he
  | waiting => simp at he
  | forgone => simp at he
  | @holding _ us _ hus =>
    rw [← List.append_nil (_ :: us)] at he
    exact bracketed hus (by simp) he hu
  | closed us hus => exact bracketed hus (by simp [Effect.isUse]) he hu

theorem holdsSlot_of_awaits (h : s.awaits = true) : s.holdsSlot = true := by
  cases s <;> first | rfl | cases h

/-- In a pool that starts at rest, whatever its invocations do and in whatever order:
the free slots and the invocations that hold one are as many as the configuration says, and when all
invocations are over every slot is free; an invocation takes its slot and returns it once at most,
and begins what it does to files and processes in between; the files change only when such an
operation is carried out, whose owner still holds its slot unless it was aborted, or when an
invocation that holds a slot is aborted; an invocation has one operation on its way at most; a
payload that is refused leaves all as it is, and an invocation that is cancelled while it waits
never gets a slot. -/
theorem slots_conserved {c : Config} {h : Host} {p : Pool} (hp : ofConfig? c h = some p)
    (as : List Action) :
    let q := p.run as
    q.free + q.held = c.maxConcurrent.toNat ∧
    ((∀ v ∈ q.invocations, v.stage.isEnded = true) → q.free = c.maxConcurrent.toNat) ∧
    (∀ n, Ledger (q.stage? n) (q.trace n)) ∧
    (∀ n before e after, q.trace n = before ++ e :: after → e.isUse = true →
      .slotTaken ∈ before ∧ .slotReturned ∉ before) ∧
    (∀ a, (q.apply a).host = q.host ∨
      (∃ k fault f v, a = .settle k fault ∧ q.flights[k]? = some f ∧
        .operation f.operation ∈ q.trace f.owner ∧ q.invocations[f.owner]? = some v ∧
        (v.stage.holdsSlot = true ∨ v.stage = .ended .aborted)) ∨
      ∃ n v, a = .abort n ∧ q.invocations[n]? = some v ∧ v.stage.holdsSlot = true) ∧
    (q.flights.map Flight.owner).Nodup ∧
    (∀ payload id e, Request.ofPayload payload = .error e → q.apply (.submit payload id) = q) ∧
    ∀ n v, q.invocations[n]? = some v → v.stage = .waiting → v.cancelled = true → ∀ bs,
      ∃ w, (q.run bs).invocations[n]? = some w ∧ w.stage.holdsSlot = false ∧
        (q.run bs).trace n = [] := by
  intro q
  have hstart : p = ⟨c, h, c.maxConcurrent.toNat, [], [], []⟩ := eq_of_ofConfig? hp
  have hbalance : q.free + q.held = c.maxConcurrent.toNat := by
    apply run_invariant (P := fun p => p.free + p.held = c.maxConcurrent.toNat)
    · rw [hstart]
      rfl
    · intro p a q hp hs
      exact (balance_step hs).trans hp
  have hledger : ∀ n, Ledger (q.stage? n) (q.trace n) := by
    apply run_invariant (P := fun p => ∀ n, Ledger (p.stage? n) (p.trace n))
    · rw [hstart]
      exact fun n => .absent
    · intro p a q hp hs
      exact ledger_step hs hp
  have hflying : Flying q := by
    apply run_invariant (P := Flying)
    · rw [hstart]
      exact ⟨by simp, List.nodup_nil, by simp⟩
    · intro p a q hp hs
      exact flying_step hs hp
  refine ⟨hbalance, ?_, hledger, ?_, ?_, hflying.single, ?_, ?_⟩
  · intro hended
    have hheld : q.held = 0 := by
      rw [held, List.countP_eq_zero]
      intro v hv
      have hv := hended v hv
      cases hs : v.stage <;> simp_all [Stage.isEnded]
    omega
  · intro n before e after he hu
    exact bracketed_of_ledger (hledger n) he hu
  · intro a
    rcases host_step (step_apply (p := q) (a := a)) with hh | ⟨k, fault, f, ha, hf⟩ | hh
    · exact .inl hh
    · have hmem : f ∈ q.flights := List.mem_of_getElem? hf
      obtain ⟨v, hv, hs⟩ := hflying.awaited f hmem
      refine .inr (.inl ⟨k, fault, f, v, ha, hf, hflying.begun f hmem, hv, ?_⟩)
      exact hs.imp (fun hs => holdsSlot_of_awaits hs.1) id
    · exact .inr (.inr hh)
  · intro payload id e hr
    simp only [apply, submit, hr]
    rfl
  · intro n v hv hs hc bs
    have hn : q.trace n = [] := by
      have hn := hledger n
      rw [stage?, hv, Option.map_some, hs] at hn
      exact eq_nil_of_waiting hn
    have hforgone : Forgone (q.run bs) n := by
      apply run_invariant (P := fun q => Forgone q n)
      · exact ⟨⟨v, hv, .inl ⟨hs, hc⟩⟩, hn⟩
      · intro p a q hp hs
        exact forgone_step hs hp
    obtain ⟨⟨w, hw, hs⟩, htrace⟩ := hforgone
    refine ⟨w, hw, ?_, htrace⟩
    rcases hs with ⟨hs, -⟩ | hs
    · rw [hs]
      rfl
    · cases hstage : w.stage <;> simp_all [Stage.isEnded]

/-- Two calls in a language whose command is empty. The first takes a slot and returns it at once,
the second is cancelled while it waits. -/
theorem slots_conserved_unresolved :
    let c : Config := { Config.empty with interpreters := Dictionary.empty.insert "python" [] }
    let h : Host := ⟨⟨[]⟩, [], .empty⟩
    let payload : Payload := ⟨"python", "x", .null, none, none⟩
    let q := run ⟨c, h, 16, [], [], []⟩
      [.submit payload ⟨0⟩, .submit payload ⟨1⟩, .acquire 0, .cancel 1, .acquire 1]
    q.trace 0 = [.slotTaken, .slotReturned] ∧ q.trace 1 = [] ∧ q.free = 16 := by
  intro c h payload q
  have hlanguage : Language.ofName? "python" = some .python := by cbv
  have hrequest : Request.ofPayload payload = .ok ⟨.python, "x", .object [], "handler", none⟩ := by
    have hname : isIdentifier defaultHandler = true := by decide
    simp only [Request.ofPayload, payload, hlanguage, Option.getD_none, hname]
    rfl
  have hcommand : Interpreter.resolve h .python (c.commandFor .python) = .error .emptyCommand :=
    rfl
  have hq : q.invocations.map Invocation.stage =
      [.ended (.result (.failed Interpreter.Error.emptyCommand.text [])),
        .ended (.result (.cancelled []))] ∧
      q.effects = [(0, .slotReturned), (0, .slotTaken)] := by
    simp [q, run, apply, submit, hrequest, Except.map, onInvocation, acquire, resolve,
      Invocation.start, note, hcommand, leave, enter, update, cancel]
  obtain ⟨hstages, heffects⟩ := hq
  have hended : ∀ v ∈ q.invocations, v.stage.isEnded = true := by
    intro v hv
    have hs : v.stage ∈ q.invocations.map Invocation.stage := List.mem_map_of_mem hv
    rw [hstages] at hs
    simp only [List.mem_cons, List.not_mem_nil, or_false] at hs
    rcases hs with hs | hs <;> simp [hs, Stage.isEnded]
  have hpool : ofConfig? c h = some ⟨c, h, 16, [], [], []⟩ := rfl
  refine ⟨?_, ?_, (slots_conserved hpool _).2.1 hended⟩
  · rw [trace, heffects]
    rfl
  · rw [trace, heffects]
    rfl

/-- The caller goes away while the root of the workspaces is being made, or the directory of its own
one. All slots are free and nobody holds one when that is carried out. -/
theorem files_touched_without_slot :
    let c : Config := { Config.empty with
      workspaceRoot := some "/w", interpreters := Dictionary.empty.insert "python" ["/i"] }
    let h : Host := ⟨FileSystem.empty.set ["i"] (.file "" true), [], .empty⟩
    let payload : Payload := ⟨"python", "x", .null, none, none⟩
    let id : WorkspaceId := ⟨0⟩
    let q := run ⟨c, h, 16, [], [], []⟩ [.submit payload id, .acquire 0, .abort 0]
    let q' := run ⟨c, h, 16, [], [], []⟩
      [.submit payload id, .acquire 0, .settle 0 none, .proceed 0 none, .abort 0]
    (q.free = 16 ∧ q.invocations.map (·.stage.isEnded) = [true] ∧
      q.host.files.lookup ["w"] = none ∧
      (q.apply (.settle 0 none)).host.files.lookup ["w"] = some .directory) ∧
    q'.free = 16 ∧ q'.invocations.map (·.stage.isEnded) = [true] ∧
      q'.host.files.lookup ["w", id.directoryName] = none ∧
      (q'.apply (.settle 0 none)).host.files.lookup ["w", id.directoryName] = some .directory := by
  intro c h payload id q q'
  let r : Request := ⟨.python, "x", .object [], "handler", none⟩
  let one : Pool := ⟨c, h, 16, [.start r id], [], []⟩
  have hlanguage : Language.ofName? "python" = some .python := by cbv
  have hrequest : Request.ofPayload payload = .ok r := by
    have hname : isIdentifier defaultHandler = true := by decide
    simp only [Request.ofPayload, payload, hlanguage, Option.getD_none, hname]
    rfl
  have hone : ∀ as, run ⟨c, h, 16, [], [], []⟩ (.submit payload id :: as) = one.run as := by
    intro as
    simp [run, apply, submit, hrequest, Except.map, one]
  have hq : q = one.run [.acquire 0, .abort 0] := hone _
  have hq' : q' = one.run [.acquire 0, .settle 0 none, .proceed 0 none, .abort 0] := hone _
  rw [hq, hq']
  decide +kernel

end Pool

end HandlerHost.Invoker
