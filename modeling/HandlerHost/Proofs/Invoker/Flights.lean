import HandlerHost.Proofs.Invoker.Turn

/-!
Operations on their way. Each was begun by the invocation that owns it, which waits for it and has
no other, or whose caller has gone away.
-/
namespace HandlerHost.Invoker

variable {p q : Pool} {v : Invocation} {n : Nat} {a : Pool.Action} {es : List Effect} {s : Stage}
  {f : Flight}

namespace Pool

/-- The operations on their way are accounted for. -/
structure Flying (p : Pool) : Prop where
  awaited : ∀ f ∈ p.flights, ∃ v, p.invocations[f.owner]? = some v ∧
    (v.stage.awaits = true ∧ v.arrived = none ∨ v.stage = .ended .aborted)
  single : (p.flights.map Flight.owner).Nodup
  begun : ∀ f ∈ p.flights, .operation f.operation ∈ p.trace f.owner

/-- An invocation takes its turn when it is not over and waits for nothing. -/
theorem turn_ready (h : Turn p n v a es s) :
    v.stage.isEnded = false ∧ (v.stage.awaits = true → v.arrived ≠ none) := by
  cases h with
  | unprovided hs ha => rcases hs with hs | hs <;> simp [hs, ha, Stage.isEnded]
  | forgo hs _ => simp [hs, Stage.isEnded, Stage.awaits]
  | unresolved hs _ _ _ => simp [hs, Stage.isEnded, Stage.awaits]
  | root hs _ _ _ => simp [hs, Stage.isEnded, Stage.awaits]
  | watch hs _ => simp [hs, Stage.isEnded, Stage.awaits]
  | finish hs _ => simp [hs, Stage.isEnded, Stage.awaits]
  | directory hs ha => simp [hs, ha, Stage.isEnded]
  | first hs ha _ _ => simp [hs, ha, Stage.isEnded]
  | next hs ha => simp [hs, ha, Stage.isEnded]
  | unwritten hs ha => simp [hs, ha, Stage.isEnded]
  | start hs ha _ => simp [hs, ha, Stage.isEnded]
  | unstarted hs ha _ => simp [hs, ha, Stage.isEnded]
  | removed hs ha => simp [hs, ha, Stage.isEnded]

theorem operations_killing {s s' : Child.Supervisor} :
    (killing s s').filterMap Effect.operation? = [] := by
  unfold killing
  split <;> rfl

/-- A turn begins one operation at most, and then waits for it. -/
theorem turn_operations (h : Turn p n v a es s) :
    es.filterMap Effect.operation? = [] ∨
      ∃ o, es.filterMap Effect.operation? = [o] ∧ s.awaits = true := by
  cases h with
  | forgo _ _ => exact .inl rfl
  | unresolved _ _ _ _ => exact .inl rfl
  | unprovided _ _ => exact .inl rfl
  | start _ _ _ => exact .inl rfl
  | removed _ _ => exact .inl rfl
  | watch _ _ => exact .inl operations_killing
  | finish _ _ =>
    rw [List.filterMap_append, operations_killing]
    exact .inr ⟨_, rfl, rfl⟩
  | _ => exact .inr ⟨_, rfl, rfl⟩

theorem operations_farewell : s.farewell.filterMap Effect.operation? = [] := by
  cases s with
  | running w life s =>
    rw [Stage.farewell]
    split <;> rfl
  | _ => rfl

/-- The owner of an operation on its way does not take a turn before that is carried out. -/
theorem owner_ne (hf : Flying p) (hv : p.invocations[n]? = some v) (he : v.stage.isEnded = false)
    (ha : v.stage.awaits = true → v.arrived ≠ none) : ∀ f ∈ p.flights, f.owner ≠ n := by
  rintro f hmem rfl
  obtain ⟨w, hw, hs⟩ := hf.awaited f hmem
  obtain rfl : w = v := Option.some.inj (hw.symm.trans hv)
  rcases hs with ⟨hs, hnone⟩ | hs
  · exact ha hs hnone
  · rw [hs] at he
    cases he

theorem flying_turn (hf : Flying p) (hv : p.invocations[n]? = some v)
    (ht : Turn p n v a es s) : Flying (p.turn n es s) := by
  obtain ⟨he, ha⟩ := turn_ready ht
  have hne : ∀ f ∈ p.flights, f.owner ≠ n := owner_ne hf hv he ha
  have hnew : ∀ o ∈ es.filterMap Effect.operation?, s.awaits = true ∧ .operation o ∈ es := by
    intro o ho
    refine ⟨?_, ?_⟩
    · rcases turn_operations ht with h | ⟨o', -, hs⟩
      · rw [h] at ho
        cases ho
      · exact hs
    · obtain ⟨e, he, heo⟩ := List.mem_filterMap.mp ho
      cases e with
      | operation o' =>
        cases heo
        exact he
      | _ => cases heo
  refine ⟨?_, ?_, ?_⟩
  · intro f hmem
    rw [flights_turn] at hmem
    rcases List.mem_append.mp hmem with hmem | hmem
    · rw [getElem?_turn, if_neg (Ne.symm (hne f hmem))]
      exact hf.awaited f hmem
    · obtain ⟨o, ho, rfl⟩ := List.mem_map.mp hmem
      rw [getElem?_turn, if_pos rfl, hv]
      exact ⟨_, rfl, .inl ⟨(hnew o ho).1, rfl⟩⟩
  · rw [flights_turn, List.map_append]
    refine List.nodup_append.mpr ⟨hf.single, ?_, ?_⟩
    · rcases turn_operations ht with h | ⟨o, h, -⟩ <;> simp [h]
    · rintro k hk l hl rfl
      obtain ⟨f, hmem, rfl⟩ := List.mem_map.mp hk
      obtain ⟨g, hg, hgo⟩ := List.mem_map.mp hl
      obtain ⟨o, -, rfl⟩ := List.mem_map.mp hg
      exact hne f hmem hgo.symm
  · intro f hmem
    rw [flights_turn] at hmem
    rw [trace_turn]
    rcases List.mem_append.mp hmem with hmem | hmem
    · exact List.mem_append_left _ (hf.begun f hmem)
    · obtain ⟨o, ho, rfl⟩ := List.mem_map.mp hmem
      rw [if_pos rfl]
      exact List.mem_append_right _ (hnew o ho).2

/-- A caller that goes away leaves the operation of its invocation on its way. -/
theorem flying_abort {h : Host} (hf : Flying p) (hv : p.invocations[n]? = some v) :
    Flying ({ p with host := h }.turn n v.stage.farewell (.ended .aborted)) := by
  have hflights : ({ p with host := h }.turn n v.stage.farewell (.ended .aborted)).flights =
      p.flights := by
    rw [flights_turn, operations_farewell]
    exact List.append_nil _
  refine ⟨?_, ?_, ?_⟩
  · rw [hflights]
    intro f hmem
    rw [getElem?_turn]
    split
    · rename_i hn
      subst hn
      change ∃ v', (p.invocations[f.owner]?.map _) = some v' ∧ _
      rw [hv]
      exact ⟨_, rfl, .inr rfl⟩
    · exact hf.awaited f hmem
  · rw [hflights]
    exact hf.single
  · rw [hflights]
    intro f hmem
    rw [trace_turn]
    exact List.mem_append_left _ (hf.begun f hmem)

/-- An operation that has been carried out leaves no other of its owner on its way. -/
theorem owner_ne_of_mem_eraseIdx {k : Nat} {g : Flight} (hf : Flying p)
    (hk : p.flights[k]? = some f) (hg : g ∈ p.flights.eraseIdx k) : g.owner ≠ f.owner := by
  intro ho
  obtain ⟨i, hi, hgi⟩ := List.mem_eraseIdx_iff_getElem?.mp hg
  have hlen : i < (p.flights.map Flight.owner).length := by
    rw [List.length_map]
    exact (List.getElem?_eq_some_iff.mp hgi).1
  have he : (p.flights.map Flight.owner)[i]? = (p.flights.map Flight.owner)[k]? := by
    rw [List.getElem?_map, List.getElem?_map, hgi, hk, Option.map_some, Option.map_some, ho]
  exact hi ((List.getElem?_inj hlen hf.single).mp he)

theorem flying_step (h : Step p a q) (hf : Flying p) : Flying q := by
  cases h with
  | idle => exact hf
  | accept hr =>
    refine ⟨?_, hf.single, hf.begun⟩
    intro f hmem
    obtain ⟨v, hv, hs⟩ := hf.awaited f hmem
    exact ⟨v, getElem?_accept hv, hs⟩
  | @settle k fault f h r hk hr =>
    refine ⟨?_, ?_, ?_⟩
    · intro g hg
      rw [getElem?_update, if_neg (Ne.symm (owner_ne_of_mem_eraseIdx hf hk hg))]
      exact hf.awaited g (List.mem_of_mem_eraseIdx hg)
    · exact List.Nodup.sublist ((List.eraseIdx_sublist _ k).map _) hf.single
    · intro g hg
      exact hf.begun g (List.mem_of_mem_eraseIdx hg)
  | @cancel a n v hv ha =>
    refine ⟨?_, hf.single, hf.begun⟩
    intro f hmem
    obtain ⟨w, hw, hs⟩ := hf.awaited f hmem
    rw [getElem?_update]
    split
    · rw [hw]
      refine ⟨_, rfl, ?_⟩
      rcases hs with ⟨hs, hnone⟩ | hs
      · refine .inl ⟨?_, hnone⟩
        cases hstage : w.stage <;> simp_all [Stage.cancel, Stage.awaits]
      · exact .inr (congrArg Stage.cancel hs)
    · exact ⟨w, hw, hs⟩
  | turn hv ht => exact flying_turn hf hv ht
  | abort hv _ => exact flying_abort hf hv

end Pool

end HandlerHost.Invoker
