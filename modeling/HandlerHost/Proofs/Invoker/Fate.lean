import HandlerHost.Proofs.Invoker.Course

/-!
One invocation among others. Whatever the others and the files do, a step leaves it as it is, brings
the outcome of an operation, cancels it, makes it take its turn, or ends it because its caller goes
away. So what holds of it is told from these cases.
-/
namespace HandlerHost.Invoker

open HandlerHost.Host (FileSystem)

variable {p q : Pool} {v w : Invocation} {m n : Nat} {a : Pool.Action} {es us : List Effect}
  {ms : List Move}

namespace Pool

/-- What becomes of an invocation in a step, and the effects that it has. -/
inductive Fate (p : Pool) (n : Nat) (v : Invocation) : Action → List Effect → Invocation → Prop
  | untouched {a : Action} : Fate p n v a [] v
  | arrived {k : Nat} {fault : Option HandlerHost.Host.Errno} {out : Operation.Outcome} :
      Fate p n v (.settle k fault) [] { v with arrived := some out }
  | cancelled {a : Action} (ha : a = .cancel n ∨ a = .tick n (.happen .cancelled)) :
      Fate p n v a [] { v with cancelled := true, stage := v.stage.cancel }
  | turned {a : Action} {es : List Effect} {s : Stage} (ht : Turn p n v a es s) :
      Fate p n v a es { v with stage := s, arrived := none }
  | aborted (hs : v.stage.isEnded = false) :
      Fate p n v (.abort n) v.stage.farewell { v with stage := .ended .aborted, arrived := none }

theorem fate_of_step (h : Step p a q) (hv : p.invocations[n]? = some v) :
    ∃ w es, Fate p n v a es w ∧ q.invocations[n]? = some w ∧ q.trace n = p.trace n ++ es ∧
      ∀ o ∈ es.filterMap Effect.operation?, (⟨n, o⟩ : Flight) ∈ q.flights := by
  have hsame : p.trace n = p.trace n ++ [] := (List.append_nil _).symm
  cases h with
  | idle => exact ⟨v, [], .untouched, hv, hsame, nofun⟩
  | accept _ => exact ⟨v, [], .untouched, getElem?_accept hv, hsame, nofun⟩
  | @settle k fault f h r _ _ =>
    by_cases hn : f.owner = n
    · refine ⟨{ v with arrived := some r }, [], .arrived, ?_, hsame, nofun⟩
      rw [getElem?_update, if_pos hn]
      exact congrArg (Option.map _) hv
    · refine ⟨v, [], .untouched, ?_, hsame, nofun⟩
      rw [getElem?_update, if_neg hn]
      exact hv
  | @cancel a m u hu ha =>
    by_cases hn : m = n
    · subst hn
      refine ⟨_, [], .cancelled ha, ?_, hsame, nofun⟩
      rw [getElem?_update, if_pos rfl, hv]
      rfl
    · refine ⟨v, [], .untouched, ?_, hsame, nofun⟩
      rw [getElem?_update, if_neg hn, hv]
  | @turn a m u es s hu ht =>
    by_cases hn : m = n
    · subst hn
      obtain rfl : u = v := Option.some.inj (hu.symm.trans hv)
      refine ⟨_, es, .turned ht, ?_, ?_, ?_⟩
      · rw [getElem?_turn, if_pos rfl, hv]
        rfl
      · rw [trace_turn, if_pos rfl]
      · intro o ho
        rw [flights_turn]
        exact List.mem_append_right _ (List.mem_map_of_mem ho)
    · refine ⟨v, [], .untouched, ?_, ?_, nofun⟩
      · rw [getElem?_turn, if_neg hn, hv]
      · rw [trace_turn, if_neg hn]
  | @abort m u hu hs =>
    by_cases hn : m = n
    · subst hn
      obtain rfl : u = v := Option.some.inj (hu.symm.trans hv)
      refine ⟨_, _, .aborted hs, ?_, ?_, ?_⟩
      · rw [getElem?_turn, if_pos rfl]
        exact congrArg (Option.map _) hv
      · rw [trace_turn, if_pos rfl]
        rfl
      · simp [operations_farewell]
    · refine ⟨v, [], .untouched, ?_, ?_, nofun⟩
      · rw [getElem?_turn, if_neg hn]
        exact hv
      · rw [trace_turn, if_neg hn]
        rfl

/-- An operation of an invocation stays on its way until its outcome arrives. -/
theorem flight_of_step {f : Flight} (h : Step p a q) (hv : p.invocations[n]? = some v)
    (hf : f ∈ p.flights) (ho : f.owner = n) :
    f ∈ q.flights ∨ ∃ w, q.invocations[n]? = some w ∧ w.arrived ≠ none := by
  cases h with
  | idle => exact .inl hf
  | accept _ => exact .inl hf
  | cancel _ _ => exact .inl hf
  | turn _ _ => exact .inl (by rw [flights_turn]; exact List.mem_append_left _ hf)
  | abort _ _ => exact .inl (by rw [flights_turn]; exact List.mem_append_left _ hf)
  | @settle k fault g h r hk _ =>
    by_cases hg : f ∈ p.flights.eraseIdx k
    · exact .inl hg
    · obtain ⟨i, hi⟩ := List.mem_iff_getElem?.mp hf
      obtain rfl : i = k := by
        by_contra hne
        exact hg (List.mem_eraseIdx_iff_getElem?.mpr ⟨i, hne, hi⟩)
      obtain rfl : f = g := Option.some.inj (hi.symm.trans hk)
      refine .inr ⟨{ v with arrived := some r }, ?_, nofun⟩
      rw [getElem?_update, if_pos ho]
      exact congrArg (Option.map _) hv

/-- An invocation that is not there has no effects, and comes as one that has just been accepted. -/
theorem absent_of_step (h : Step p a q) (hv : p.invocations[n]? = none) :
    q.trace n = p.trace n ∧ ∀ w, q.invocations[n]? = some w → ∃ r id, w = .start r id := by
  have hmap : ∀ {f : Invocation → Invocation} {w : Invocation},
      p.invocations[n]?.map f ≠ some w := by
    rw [hv]
    exact nofun
  cases h with
  | idle => exact ⟨rfl, fun w hw => absurd (hv.symm.trans hw) nofun⟩
  | @accept _ id r _ =>
    refine ⟨rfl, fun w hw => ⟨r, id, ?_⟩⟩
    rw [List.getElem?_append_right (List.getElem?_eq_none_iff.mp hv)] at hw
    exact List.mem_singleton.mp (List.mem_of_getElem? hw)
  | settle _ _ =>
    refine ⟨rfl, fun w hw => ?_⟩
    rw [getElem?_update] at hw
    split at hw
    · exact absurd hw hmap
    · exact absurd (hv.symm.trans hw) nofun
  | cancel _ _ =>
    refine ⟨rfl, fun w hw => ?_⟩
    rw [getElem?_update] at hw
    split at hw
    · exact absurd hw hmap
    · exact absurd (hv.symm.trans hw) nofun
  | @turn _ m u _ _ hu _ =>
    have hn : m ≠ n := by
      rintro rfl
      exact absurd (hv.symm.trans hu) nofun
    rw [trace_turn, getElem?_turn, if_neg hn, if_neg hn, List.append_nil]
    exact ⟨rfl, fun w hw => absurd (hv.symm.trans hw) nofun⟩
  | @abort m u hu _ =>
    have hn : m ≠ n := by
      rintro rfl
      exact absurd (hv.symm.trans hu) nofun
    rw [trace_turn, getElem?_turn, if_neg hn, if_neg hn, List.append_nil]
    exact ⟨rfl, fun w hw => absurd (hv.symm.trans hw) nofun⟩

/-- What holds of an invocation and its effects, and goes on to hold whatever becomes of it, holds
after all moves. -/
theorem play_invocation {P : Invocation → List Effect → Prop}
    (hv : p.invocations[n]? = some v) (hP : P v (p.trace n))
    (hfate : ∀ {p a v es w us}, .act a ∈ ms → Fate p n v a es w → P v us → P w (us ++ es)) :
    ∃ w, (p.play ms).invocations[n]? = some w ∧ P w ((p.play ms).trace n) := by
  induction ms generalizing p v with
  | nil => exact ⟨v, hv, hP⟩
  | cons m ms ih =>
    have hrest : ∀ {p a v es w us}, Move.act a ∈ ms → Fate p n v a es w → P v us →
        P w (us ++ es) := fun ha => hfate (List.mem_cons_of_mem _ ha)
    cases m with
    | act a =>
      obtain ⟨w, es, hw, hq, htrace, -⟩ := fate_of_step step_apply hv (a := a)
      refine ih hq ?_ hrest
      change P w ((p.apply a).trace n)
      rw [htrace]
      exact hfate List.mem_cons_self hw hP
    | change fs => exact ih hv hP hrest

theorem getElem?_play (hv : p.invocations[n]? = some v) :
    ∃ w, (p.play ms).invocations[n]? = some w := by
  obtain ⟨w, hw, -⟩ : ∃ w, (p.play ms).invocations[n]? = some w ∧ True :=
    play_invocation (P := fun _ _ => True) hv trivial fun _ _ _ => trivial
  exact ⟨w, hw⟩

/-- What holds at first, after every step and whatever the files become holds after all moves. -/
theorem play_invariant {P : Pool → Prop} (hp : P p) (hs : ∀ {p a q}, P p → Step p a q → P q)
    (hc : ∀ {p fs}, P p → P (p.move (.change fs))) : P (p.play ms) := by
  induction ms generalizing p with
  | nil => exact hp
  | cons m ms ih =>
    cases m with
    | act a => exact ih (hs hp step_apply)
    | change fs => exact ih (hc hp)

/-- What holds of an invocation that has just been accepted, and of one and its effects whatever
becomes of it, holds of all invocations of a pool that starts at rest. -/
theorem play_each {c : Config} {h : Host} {P : Pool → Nat → Invocation → Prop}
    (hp : ofConfig? c h = some p)
    (hstart : ∀ {q : Pool} {n : Nat} {r : Request} {id : WorkspaceId},
      q.invocations[n]? = some (.start r id) → q.trace n = [] → P q n (.start r id))
    (hs : ∀ {p : Pool} {a : Action} {q : Pool} {n : Nat} {v : Invocation},
      p.invocations[n]? = some v → P p n v → Step p a q →
        ∃ w, q.invocations[n]? = some w ∧ P q n w)
    (hc : ∀ {p : Pool} {fs : FileSystem} {n : Nat} {v : Invocation}, P p n v →
      P (p.move (.change fs)) n v)
    (hv : (p.play ms).invocations[n]? = some v) : P (p.play ms) n v := by
  let Q : Pool → Prop := fun p => ∀ n, (p.invocations[n]? = none → p.trace n = []) ∧
    ∀ v, p.invocations[n]? = some v → P p n v
  suffices hQ : Q (p.play ms) from (hQ n).2 v hv
  refine play_invariant (P := Q) ?_ ?_ ?_
  · obtain rfl := eq_of_ofConfig? hp
    exact fun n => ⟨fun _ => rfl, by simp⟩
  · intro p a q hQ hq n
    cases hn : p.invocations[n]? with
    | none =>
      obtain ⟨htrace, hnew⟩ := absent_of_step hq hn
      rw [(hQ n).1 hn] at htrace
      refine ⟨fun _ => htrace, fun w hw => ?_⟩
      obtain ⟨r, id, rfl⟩ := hnew w hw
      exact hstart hw htrace
    | some v =>
      obtain ⟨w, hw, hP⟩ := hs hn ((hQ n).2 v hn) hq
      refine ⟨fun hnone => absurd (hnone.symm.trans hw) nofun, fun u hu => ?_⟩
      obtain rfl : w = u := Option.some.inj (hw.symm.trans hu)
      exact hP
  · intro p fs hQ n
    exact ⟨(hQ n).1, fun v hv => hc ((hQ n).2 v hv)⟩

end Pool

end HandlerHost.Invoker
