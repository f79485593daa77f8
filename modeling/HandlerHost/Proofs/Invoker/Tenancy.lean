import HandlerHost.Proofs.Invoker.Lodging

/-!
Invocations and their homes. A step of the pool changes the files by a deed of the invocation that
it is a step of, or makes the root, and leaves every invocation lodged.
-/
namespace HandlerHost.Invoker

open HandlerHost.Host (Errno)
open Workspace (Deed Home Homes createRoot)

/-- Nothing of the invocation is half done: its directory is not being made, and no operation of
its is under way. -/
def Invocation.isWhole (v : Invocation) : Bool :=
  match v.stage with
  | .rooting _ => false
  | .making _ => false
  | s => !s.awaits || v.arrived.isSome

variable {root : String} {arrived : Option Operation.Outcome} {flight : Option Operation}
  {home : Option Home} {homes homes' : Homes} {v : Invocation} {out : Operation.Outcome} {s : Stage}
  {h' : Host} {n : Nat} {fault : Option Errno}

/-- An invocation that goes away while nothing of it is half done leaves its home to be removed. -/
theorem lodging_abort (hl : Lodging root v.request v.id v.stage v.arrived flight home)
    (hw : v.isWhole = true) : flight = none ∧ v.stage.workspace? = v.workspace? root := by
  obtain ⟨request, id, cancelled, s, arrived⟩ := v
  dsimp only at hl
  cases hl <;>
    simp_all [Invocation.isWhole, Stage.awaits, Invocation.workspace?, Stage.workspace?]

namespace Pool

variable {p q : Pool} {a : Action} {es : List Effect}

/-- Every invocation of a pool is lodged. -/
structure Tenants (root : String) (homes : Homes) (p : Pool) : Prop where
  root_eq : p.root = root
  flying : Flying p
  absent : ∀ n, p.invocations[n]? = none → homes n = none
  lodged : ∀ n v, p.invocations[n]? = some v → ∃ flight : Option Operation,
    (∀ o, (⟨n, o⟩ : Flight) ∈ p.flights ↔ flight = some o) ∧
      Lodging root v.request v.id v.stage v.arrived flight (homes n)

/-- A caller goes away only while nothing of its invocation is half done. -/
def Spares (p : Pool) (a : Action) : Prop :=
  ∀ n v, a = .abort n → p.invocations[n]? = some v → v.isWhole = true

/-- The invocation that an action is a step of. -/
def actor? (p : Pool) : Action → Option Nat
  | .submit _ _ => none
  | .settle k _ => p.flights[k]?.map Flight.owner
  | .acquire n => some n
  | .proceed n _ => some n
  | .tick n _ => some n
  | .cancel n => some n
  | .abort n => some n

/-- The root is made. -/
def MakesRoot (p : Pool) (a : Action) : Prop :=
  ∃ k fault f, a = .settle k fault ∧ p.flights[k]? = some f ∧ f.operation = .makeRoot p.root

/-- How the files change with a step, and the homes: not at all, or the root is made, or the
invocation that the step belongs to does a deed. -/
def Shifts (p : Pool) (a : Action) (homes homes' : Homes) (h' : Host) : Prop :=
  homes' = homes ∧ h' = p.host ∨
    homes' = homes ∧ p.MakesRoot a ∧ h' = (createRoot p.host p.root).1 ∨
    ∃ n id, p.actor? a = some n ∧ Deed p.root id n homes p.host homes' h'

theorem root_withHost (hh : ∃ fs, h' = { p.host with files := fs }) :
    ({ p with host := h' } : Pool).root = p.root := by
  obtain ⟨fs, rfl⟩ := hh
  rfl

theorem root_turn : (p.turn n es s).root = p.root := by
  rw [Pool.root, Pool.root, config_turn, host_turn]

/-- One invocation changes, with what it has on its way and its home; the others stay. -/
theorem Tenants.update {f : Invocation → Invocation} (ht : Tenants root homes p)
    (hv : p.invocations[n]? = some v) (hroot : q.root = p.root) (hflying : Flying q)
    (hinvocations : ∀ m, q.invocations[m]? =
      if n = m then p.invocations[m]?.map f else p.invocations[m]?)
    (hothers : ∀ m, m ≠ n → homes' m = homes m)
    (hflights : ∀ m o, m ≠ n → ((⟨m, o⟩ : Flight) ∈ q.flights ↔ (⟨m, o⟩ : Flight) ∈ p.flights))
    (hself : ∃ flight : Option Operation, (∀ o, (⟨n, o⟩ : Flight) ∈ q.flights ↔ flight = some o) ∧
      Lodging root (f v).request (f v).id (f v).stage (f v).arrived flight (homes' n)) :
    Tenants root homes' q := by
  refine ⟨hroot.trans ht.root_eq, hflying, ?_, ?_⟩
  · intro m hm
    rw [hinvocations] at hm
    split at hm
    · rename_i he
      subst he
      rw [hv] at hm
      cases hm
    · rename_i he
      rw [hothers m (Ne.symm he)]
      exact ht.absent m hm
  · intro m w hw
    rw [hinvocations] at hw
    split at hw
    · rename_i he
      subst he
      rw [hv] at hw
      obtain rfl := Option.some.inj hw
      exact hself
    · rename_i he
      obtain ⟨flight, hflight, hl⟩ := ht.lodged m w hw
      rw [← hothers m (Ne.symm he)] at hl
      exact ⟨flight, fun o => (hflights m o (Ne.symm he)).trans (hflight o), hl⟩

theorem tenants_settle {k : Nat} {f : Flight} (ht : Tenants root homes p)
    (hk : p.flights[k]? = some f) (ho : f.operation.attempt p.host fault = (h', out))
    (hflying : Flying ({ p with host := h', flights := p.flights.eraseIdx k }.update f.owner
      fun v => { v with arrived := some out })) :
    ∃ homes', Tenants root homes'
        ({ p with host := h', flights := p.flights.eraseIdx k }.update f.owner
          fun v => { v with arrived := some out }) ∧
      p.Shifts (.settle k fault) homes homes' h' := by
  obtain ⟨n, o⟩ := f
  have hmem : (⟨n, o⟩ : Flight) ∈ p.flights := List.mem_of_getElem? hk
  obtain ⟨v, hv, -⟩ := ht.flying.awaited _ hmem
  obtain ⟨flight, hflight, hl⟩ := ht.lodged n v hv
  rw [(hflight o).mp hmem] at hl
  obtain ⟨homes', hl', hshift⟩ := lodging_attempt homes n hl ho
  have hothers : ∀ m, m ≠ n → homes' m = homes m := by
    rcases hshift with ⟨rfl, -⟩ | ⟨rfl, -, -⟩ | hd
    · exact fun _ _ => rfl
    · exact fun _ _ => rfl
    · exact hd.others
  refine ⟨homes', ?_, ?_⟩
  · apply ht.update hv ?_ hflying (fun m => getElem?_update) hothers
    · intro m o' hm
      refine ⟨List.mem_of_mem_eraseIdx, fun h => ?_⟩
      obtain ⟨i, hi⟩ := List.mem_iff_getElem?.mp h
      refine List.mem_eraseIdx_iff_getElem?.mpr ⟨i, ?_, hi⟩
      rintro rfl
      rw [hk] at hi
      exact hm (congrArg Flight.owner (Option.some.inj hi)).symm
    · refine ⟨none, fun o' => ⟨fun hm => ?_, nofun⟩, hl'⟩
      have hne : (⟨n, o'⟩ : Flight).owner ≠ n := owner_ne_of_mem_eraseIdx ht.flying hk hm
      exact absurd rfl hne
    · exact root_withHost (Operation.host_attempt ho)
  · rcases hshift with hsame | ⟨hh, rfl, hr⟩ | hd
    · exact .inl hsame
    · refine .inr (.inl ⟨hh, ⟨k, fault, _, rfl, hk, by rw [ht.root_eq]⟩, ?_⟩)
      rw [ht.root_eq]
      exact hr
    · refine .inr (.inr ⟨n, v.id, by simp [actor?, hk], ?_⟩)
      rw [ht.root_eq]
      exact hd

/-- An invocation that has nothing on its way comes to another stage. -/
theorem tenants_turn {o : Option Operation} (ht : Tenants root homes p)
    (hv : p.invocations[n]? = some v) (hfree : ∀ o, (⟨n, o⟩ : Flight) ∉ p.flights)
    (hothers : ∀ m, m ≠ n → homes' m = homes m)
    (hes : es.filterMap Effect.operation? = o.toList)
    (hl : Lodging root v.request v.id s none o (homes' n))
    (hh : ∃ fs, h' = { p.host with files := fs })
    (hflying : Flying ({ p with host := h' }.turn n es s)) :
    Tenants root homes' ({ p with host := h' }.turn n es s) := by
  have hflights : ({ p with host := h' }.turn n es s).flights =
      p.flights ++ o.toList.map fun o => ⟨n, o⟩ := by
    rw [flights_turn, hes]
  apply ht.update hv (root_turn.trans (root_withHost hh)) hflying (fun m => getElem?_turn) hothers
  · intro m o' hm
    simp [hflights, Ne.symm hm]
  · refine ⟨o, fun o' => ?_, hl⟩
    simp [hflights, hfree, eq_comm]

theorem tenants_abort (ht : Tenants root homes p) (hv : p.invocations[n]? = some v)
    (hw : v.isWhole = true) :
    ∃ homes', Tenants root homes'
        ({ p with host := v.stage.abandon p.host }.turn n v.stage.farewell (.ended .aborted)) ∧
      p.Shifts (.abort n) homes homes' (v.stage.abandon p.host) := by
  obtain ⟨flight, hflight, hl⟩ := ht.lodged n v hv
  obtain ⟨rfl, hstage⟩ := lodging_abort hl hw
  obtain ⟨hworkspace, hname⟩ := workspace?_of_lodging hl
  have hfree : ∀ o, (⟨n, o⟩ : Flight) ∉ p.flights := by
    intro o hm
    cases (hflight o).mp hm
  have hflying := flying_abort (h := v.stage.abandon p.host) ht.flying hv
  cases hx : homes n with
  | none =>
    have habandon : v.stage.abandon p.host = p.host := by
      simp [Stage.abandon, hstage, hworkspace, hx]
    rw [habandon] at hflying ⊢
    refine ⟨homes, ?_, .inl ⟨rfl, rfl⟩⟩
    apply tenants_turn (o := none) ht hv hfree (fun _ _ => rfl) operations_farewell ?_ ⟨_, rfl⟩
      hflying
    rw [hx]
    exact .ended
  | some x =>
    obtain ⟨name, files⟩ := x
    obtain rfl : name = v.id.directoryName := hname _ hx
    have habandon : v.stage.abandon p.host = (Workspace.under p.root v.id).remove p.host := by
      simp [Stage.abandon, hstage, hworkspace, hx, ht.root_eq]
    have hhost : ∃ fs, v.stage.abandon p.host = { p.host with files := fs } := by
      rw [habandon]
      exact Workspace.host_remove _
    have hdeed : Deed p.root v.id n homes p.host (Function.update homes n none)
        (v.stage.abandon p.host) := by
      rw [habandon]
      exact .remove hx
    refine ⟨_, ?_, .inr (.inr ⟨n, v.id, rfl, hdeed⟩)⟩
    apply tenants_turn (o := none) ht hv hfree hdeed.others operations_farewell ?_ hhost hflying
    rw [Function.update_self]
    exact .ended

/-- A step changes the files in one of these ways, and leaves every invocation lodged. -/
theorem tenants_step (ht : Tenants root homes p) (ha : p.Spares a) (hq : Step p a q) :
    ∃ homes', Tenants root homes' q ∧ p.Shifts a homes homes' q.host := by
  have hflying := flying_step hq ht.flying
  cases hq with
  | idle => exact ⟨homes, ht, .inl ⟨rfl, rfl⟩⟩
  | @accept payload id r hr =>
    refine ⟨homes, ⟨ht.root_eq, hflying, ?_, ?_⟩, .inl ⟨rfl, rfl⟩⟩
    · intro n hn
      apply ht.absent
      rw [List.getElem?_eq_none_iff] at hn ⊢
      rw [List.length_append] at hn
      omega
    · intro n v hv
      cases hold : p.invocations[n]? with
      | some w =>
        rw [getElem?_accept hold] at hv
        obtain rfl := Option.some.inj hv
        exact ht.lodged n w hold
      | none =>
        refine ⟨none, fun o => ⟨fun hm => ?_, nofun⟩, ?_⟩
        · obtain ⟨w, hw, -⟩ := ht.flying.awaited _ hm
          rw [hold] at hw
          cases hw
        · rw [ht.absent n hold]
          rw [List.getElem?_append_right (List.getElem?_eq_none_iff.mp hold)] at hv
          obtain rfl : v = .start r id := List.mem_singleton.mp (List.mem_of_getElem? hv)
          exact .waiting
  | settle hk ho => exact tenants_settle ht hk ho hflying
  | @cancel a n v hv _ =>
    refine ⟨homes, ?_, .inl ⟨rfl, rfl⟩⟩
    obtain ⟨flight, hflight, hl⟩ := ht.lodged n v hv
    exact ht.update hv rfl hflying (fun m => getElem?_update) (fun _ _ => rfl)
      (fun _ _ _ => Iff.rfl) ⟨flight, hflight, lodging_cancel hl⟩
  | @turn a n v es s hv hturn =>
    obtain ⟨flight, hflight, hl⟩ := ht.lodged n v hv
    obtain ⟨rfl, o, hes, hl'⟩ := lodging_turn hturn ht.root_eq hl
    refine ⟨homes, ?_, .inl ⟨rfl, host_turn⟩⟩
    have hfree : ∀ o, (⟨n, o⟩ : Flight) ∉ p.flights := by
      intro o hm
      cases (hflight o).mp hm
    have hhost : ∃ fs, p.host = { p.host with files := fs } := ⟨_, rfl⟩
    exact tenants_turn ht hv hfree (fun _ _ => rfl) hes hl' hhost hflying
  | @abort n v hv _ =>
    have hhost : ({ p with host := v.stage.abandon p.host }.turn n v.stage.farewell
        (.ended .aborted)).host = v.stage.abandon p.host := host_turn
    rw [hhost]
    exact tenants_abort ht hv (ha n v rfl hv)

end Pool

end HandlerHost.Invoker
