import HandlerHost.Invoker.Call
import HandlerHost.Proofs.Child.Supervision
import HandlerHost.Proofs.Invoker.Failure

/-!
An invocation that is alone comes to its end. Each operation that is carried out brings it nearer,
whether or not it succeeds, and its process is watched until the deadline at most.
-/
namespace HandlerHost.Invoker

open HandlerHost.Host (Errno FileSystem)
open Child (Exit Life Supervisor)

variable {c : Config} {h : Host} {r : Request} {id : WorkspaceId} {made : Bool} {p : Pool}
  {v : Invocation} {n : Nat} {es : List Effect} {s : Stage} {fault : Option Errno}

/-- How many operations an invocation may still wait for. -/
def Stage.ahead : Stage → Nat
  | waiting => 6
  | rooting _ => 6
  | making _ => 5
  | writing _ _ rest => rest.length + 2
  | running _ _ _ => 1
  | removing _ _ => 1
  | ended _ => 0

/-- How many lines of its process have come that have not been delivered. -/
def Stage.backlog : Stage → Nat
  | running _ _ s => s.sources.queue.length
  | _ => 0

theorem ahead_pos (hs : s.awaits = true) : 0 < s.ahead := by
  cases s <;> simp [Stage.awaits] at hs <;> simp [Stage.ahead]

theorem ended_of_ahead (hs : s ≠ .ended .aborted) (ha : s.ahead = 0) :
    ∃ r, s = .ended (.result r) := by
  cases s with
  | ended e =>
    cases e with
    | result r => exact ⟨r, rfl⟩
    | aborted => exact absurd rfl hs
  | _ => cases ha

section

variable {root : String} {arrived : Option Operation.Outcome} {flight : Option Operation}
  {fs : FileSystem} {k : Nat}

theorem ahead_of_standing (hs : Standing h root r id made s arrived flight fs k) :
    s.ahead ≤ Pool.maxOperations := by
  have hrest : ∀ {files rest : List (String × String)},
      Workspace.artifacts r = files ++ rest → rest.length ≤ 3 := by
    intro files rest ha
    have hlen := congrArg List.length ha
    simp only [Workspace.artifacts, List.length_append, List.length_cons, List.length_nil] at hlen
    omega
  obtain ⟨home, hl, -⟩ := hs.lodged
  simp only [Pool.maxOperations]
  cases hl with
  | writing ha | unwritten ha =>
    have hle := hrest ha
    simp only [Stage.ahead, List.length_cons] at hle ⊢
    omega
  | written ha =>
    have hle := hrest ha
    simp only [Stage.ahead]
    omega
  | _ => simp [Stage.ahead]

theorem idle_of_standing (hs : Standing h root r id made s arrived flight fs k)
    (ha : s.awaits = false) : flight = none ∧ arrived = none := by
  obtain ⟨home, hl, -⟩ := hs.lodged
  cases hl <;> simp_all [Stage.awaits]

/-- What an invocation waits for is on its way or has arrived. -/
theorem flight_of_standing (hs : Standing h root r id made s arrived flight fs k)
    (ha : s.awaits = true) :
    (∃ o, flight = some o) ∨ flight = none ∧ ∃ out, arrived = some out := by
  obtain ⟨home, hl, -⟩ := hs.lodged
  cases hl <;> simp_all [Stage.awaits]

end

namespace Pool

/-- Every operation that an invocation has waited for brings it nearer to its end. -/
theorem ahead_turn (ht : Turn p n v (.proceed n fault) es s) : s.ahead < v.stage.ahead := by
  cases ht with
  | unprovided hs _ => rcases hs with hs | hs <;> simp [hs, Stage.ahead]
  | first hs _ _ hr =>
    have hlen := congrArg List.length hr
    simp only [Workspace.artifacts, List.length_cons, List.length_nil] at hlen
    simp only [hs, Stage.ahead]
    omega
  | directory hs _ => simp [hs, Stage.ahead]
  | next hs _ => simp [hs, Stage.ahead]
  | unwritten hs _ => simp [hs, Stage.ahead]
  | start hs _ _ => simp [hs, Stage.ahead]
  | unstarted hs _ _ => simp [hs, Stage.ahead]
  | removed hs _ => simp [hs, Stage.ahead]

/-- An operation on its way is carried out, and the invocation goes on. -/
def round (faults : Option Errno × Option Errno) : List Action :=
  [.settle 0 faults.1, .proceed 0 faults.2]

theorem run_round {faults : Option Errno × Option Errno} :
    p.run (round faults) = (p.apply (.settle 0 faults.1)).apply (.proceed 0 faults.2) := rfl

theorem apply_settle_nil (hf : p.flights = []) : p.apply (.settle 0 fault) = p := by
  simp [apply, settle, hf]

theorem apply_proceed_none (hv : p.invocations[n]? = some v) (ha : v.arrived = none) :
    p.apply (.proceed n fault) = p := by
  simp only [apply, onInvocation, hv, ha]

theorem run_rounds_idle (faults : List (Option Errno × Option Errno))
    (hp : Alone c h r id made p v) (hs : v.stage.awaits = false) :
    p.run (faults.flatMap round) = p := by
  obtain ⟨o, hflights, hst⟩ := hp.standing
  obtain ⟨rfl, ha⟩ := idle_of_standing hst hs
  induction faults with
  | nil => rfl
  | cons f faults ih =>
    rw [List.flatMap_cons, run_append, run_round, apply_settle_nil hflights,
      apply_proceed_none hp.first ha, ih]

/-- What an invocation waits for has arrived once the operation on its way is carried out. -/
theorem alone_arrived (fault : Option Errno) (hp : Alone c h r id made p v)
    (hs : v.stage.awaits = true) :
    ∃ made' out,
      Alone c h r id made' (p.apply (.settle 0 fault)) { v with arrived := some out } := by
  obtain ⟨o, hflights, hst⟩ := hp.standing
  rcases flight_of_standing hst hs with ⟨o, rfl⟩ | ⟨rfl, out, ha⟩
  · have hk : p.flights[0]? = some ⟨0, o⟩ := by rw [hflights]; rfl
    generalize hout : o.attempt p.host fault = result
    obtain ⟨h', out⟩ := result
    obtain ⟨made', hq, -⟩ := alone_settle hp hk hout
    refine ⟨made', out, ?_⟩
    simp only [apply, settle, hk, hout]
    exact hq
  · refine ⟨made, out, ?_⟩
    rw [apply_settle_nil hflights, ← ha]
    exact hp

theorem backlog_turn (ht : Turn p n v (.proceed n fault) es s) : s.backlog = 0 := by
  cases ht with
  | start =>
    simp only [Stage.backlog, Invocation.supervisor]
    split <;> rfl
  | _ => rfl

theorem alone_round (hp : Alone c h r id made p v)
    (hs : v.stage.awaits = true) (faults : Option Errno × Option Errno) :
    ∃ made' w, Alone c h r id made' (p.run (round faults)) w ∧ w.stage.ahead < v.stage.ahead ∧
      w.stage ≠ .waiting ∧ w.stage.backlog = 0 := by
  obtain ⟨made', out, hq⟩ := alone_arrived faults.1 hp hs
  obtain ⟨es, s, ht, hturn⟩ := turn_proceed (p := p.apply (.settle 0 faults.1)) (n := 0)
    (v := { v with arrived := some out }) faults.2 hs rfl
  have hw := alone_turn hq ht
  rw [← hturn, ← apply_proceed hq.first rfl, ← run_round] at hw
  have hlt := ahead_turn ht
  refine ⟨made', _, hw, hlt, ?_, backlog_turn ht⟩
  cases ht <;> simp

/-- After as many operations as there can be an invocation waits for none. -/
theorem alone_rounds (hp : Alone c h r id made p v)
    (hs : v.stage ≠ .waiting) (faults : List (Option Errno × Option Errno)) :
    ∃ made' w, Alone c h r id made' (p.run (faults.flatMap round)) w ∧ w.stage ≠ .waiting ∧
      w.stage.backlog ≤ v.stage.backlog ∧
      (w.stage.awaits = true → w.stage.ahead + faults.length ≤ v.stage.ahead) := by
  induction faults generalizing p v made with
  | nil => exact ⟨made, v, hp, hs, Nat.le_refl _, fun _ => Nat.le_refl _⟩
  | cons f faults ih =>
    cases ha : v.stage.awaits with
    | false =>
      rw [run_rounds_idle _ hp ha]
      exact ⟨made, v, hp, hs, Nat.le_refl _, fun h => by simp [ha] at h⟩
    | true =>
      obtain ⟨made₁, v₁, hp₁, hlt, hs₁, hb₁⟩ := alone_round hp ha f
      obtain ⟨made₂, v₂, hp₂, hs₂, hb₂, hle⟩ := ih hp₁ hs₁
      rw [List.flatMap_cons, run_append]
      refine ⟨made₂, v₂, hp₂, hs₂, by omega, fun h => ?_⟩
      have hle := hle h
      rw [List.length_cons]
      omega

theorem apply_tick {w : Workspace} {life : Life} {sup : Supervisor} {t : Supervisor.Tick}
    (hv : p.invocations[n]? = some v) (hs : v.stage = .running w life sup)
    (ht : t ≠ .happen .cancelled) : p.apply (.tick n t) = p.tick n v w life sup t := by
  rw [apply]
  · simp only [onInvocation, hv, hs]
  · exact ht

theorem apply_tick_idle {t : Supervisor.Tick} (hv : p.invocations[n]? = some v)
    (hs : ∀ w life sup, v.stage ≠ .running w life sup) (ht : t ≠ .happen .cancelled) :
    p.apply (.tick n t) = p := by
  rw [apply]
  · simp only [onInvocation, hv]
  · exact ht

theorem run_ticks_idle {ticks : List Supervisor.Tick} (hv : p.invocations[n]? = some v)
    (hs : ∀ w life sup, v.stage ≠ .running w life sup)
    (ht : ∀ t ∈ ticks, t ≠ .happen .cancelled) : p.run (ticks.map (.tick n)) = p := by
  induction ticks with
  | nil => rfl
  | cons t ticks ih =>
    obtain ⟨ht, hticks⟩ := List.forall_mem_cons.mp ht
    rw [List.map_cons, run, List.foldl_cons, apply_tick_idle hv hs ht]
    exact ih hticks

/-- Once its supervisor is through, an invocation removes its workspace. -/
theorem alone_ticks {w : Workspace} {life : Life} {sup : Supervisor}
    {ticks : List Supervisor.Tick} {t : Child.Termination} (hp : Alone c h r id made p v)
    (hs : v.stage = .running w life sup) (hc : ∀ t ∈ ticks, t ≠ .happen .cancelled)
    (ht : (sup.run ticks).termination? = some t) :
    ∃ made' v' w' r', Alone c h r id made' (p.run (ticks.map (.tick 0))) v' ∧
      v'.stage = .removing w' r' := by
  induction ticks generalizing p v sup made with
  | nil =>
    obtain ⟨o, -, hst⟩ := hp.standing
    rw [hs] at hst
    have hnone : sup.termination? = some t := ht
    rw [hst.watched _ _ _ rfl] at hnone
    cases hnone
  | cons tick ticks ih =>
    obtain ⟨hc, hcs⟩ := List.forall_mem_cons.mp hc
    obtain ⟨es, q, hturn, hq⟩ := turn_tick (p := p) (n := 0) (t := tick) hs
    have hp₁ := alone_turn hp hturn
    rw [List.map_cons, run, List.foldl_cons, apply_tick hp.first hs hc, hq]
    cases hturn with
    | watch hs' _ =>
      rw [hs] at hs'
      cases hs'
      exact ih hp₁ rfl hcs ht
    | finish hs' _ =>
      have hidle := run_ticks_idle hp₁.first (by simp) hcs
      rw [← hidle] at hp₁
      exact ⟨made, _, _, _, hp₁, rfl⟩

theorem alone_acquire (hp : Alone c h r id made p v)
    (hf : v.stage = .waiting → v.cancelled = true ∨ 0 < p.free) :
    ∃ w, Alone c h r id made (p.apply (.acquire 0)) w ∧ w.stage ≠ .waiting ∧
      w.stage.backlog ≤ v.stage.backlog := by
  by_cases hs : v.stage = .waiting
  · obtain ⟨es, s, ht, hturn⟩ := turn_acquire (n := 0) hs (hf hs)
    have hw := alone_turn hp ht
    rw [← hturn, ← apply_acquire hp.first hs] at hw
    refine ⟨_, hw, ?_, ?_⟩
    · cases ht <;> simp
    · cases ht <;> exact Nat.zero_le _
  · have hidle : p.apply (.acquire 0) = p := by
      simp only [apply, onInvocation, hp.first]
    rw [hidle]
    exact ⟨v, hp, hs, Nat.le_refl _⟩

/-- What is left to do: take a slot, go through all operations with what befalls them, watch the
process until it is over, and carry out the removal. -/
def remainder (faults : List (Option Errno × Option Errno)) (e : Exit) (n : Nat)
    (last : Option Errno × Option Errno) : List Action :=
  .acquire 0 :: (faults.flatMap round ++ ((Supervisor.closing e n).map (.tick 0) ++ round last))

theorem closing_uncancelled {e : Exit} :
    ∀ t ∈ Supervisor.closing e n, t ≠ .happen .cancelled := by
  intro t ht
  simp only [Supervisor.closing, List.mem_cons, List.mem_replicate] at ht
  rintro rfl
  simp at ht

/-- Whatever befalls its operations, an invocation that gets a slot returns a result. -/
theorem alone_remainder (hp : Alone c h r id made p v)
    (hf : v.stage = .waiting → v.cancelled = true ∨ 0 < p.free)
    {faults : List (Option Errno × Option Errno)} (hlen : maxOperations ≤ faults.length) (e : Exit)
    (hn : v.stage.backlog < n) (last : Option Errno × Option Errno) :
    ∃ made' w result, Alone c h r id made' (p.run (remainder faults e n last)) w ∧
      w.stage = .ended (.result result) := by
  obtain ⟨v₁, hp₁, hs₁, hb₁⟩ := alone_acquire hp hf
  obtain ⟨made₂, v₂, hp₂, hs₂, hb₂, hle⟩ := alone_rounds hp₁ hs₁ faults
  -- As many rounds as there can be operations leave none to wait for.
  have hidle : v₂.stage.awaits = false := by
    apply Bool.eq_false_iff.mpr
    intro ha
    obtain ⟨o, -, hst⟩ := hp₁.standing
    have hpos := ahead_pos ha
    have hmax := ahead_of_standing hst
    have hle := hle ha
    omega
  have hrun : p.run (remainder faults e n last) =
      (((p.apply (.acquire 0)).run (faults.flatMap round)).run
        ((Supervisor.closing e n).map (.tick 0))).run (round last) := by
    rw [remainder, run, List.foldl_cons, List.foldl_append, List.foldl_append]
    rfl
  rw [hrun]
  obtain ⟨o, -, hst⟩ := hp₂.standing
  cases hs : v₂.stage with
  | running w life sup =>
    rw [hs] at hb₂
    have hqueue : sup.sources.queue.length < n := Nat.lt_of_le_of_lt (Nat.le_trans hb₂ hb₁) hn
    obtain ⟨t, ht⟩ := Supervisor.termination_closing e hqueue
    obtain ⟨made₃, v₃, w₃, r₃, hp₃, hs₃⟩ := alone_ticks hp₂ hs closing_uncancelled ht
    obtain ⟨made₄, v₄, hp₄, hlt, -⟩ := alone_round hp₃ (by simp [hs₃, Stage.awaits]) last
    obtain ⟨o₄, -, hst₄⟩ := hp₄.standing
    rw [hs₃, Stage.ahead] at hlt
    obtain ⟨result, hended⟩ := ended_of_ahead hst₄.stays (by omega)
    exact ⟨made₄, v₄, result, hp₄, hended⟩
  | ended ending =>
    obtain ⟨result, hended⟩ := ended_of_ahead hst.stays (by simp [hs, Stage.ahead])
    have hticks := run_ticks_idle hp₂.first (by simp [hs]) (closing_uncancelled (e := e) (n := n))
    have hround := run_rounds_idle [last] hp₂ hidle
    rw [List.flatMap_singleton] at hround
    rw [hticks, hround]
    exact ⟨made₂, v₂, result, hp₂, hended⟩
  | waiting => exact absurd hs hs₂
  | rooting => simp [hs, Stage.awaits] at hidle
  | making => simp [hs, Stage.awaits] at hidle
  | writing => simp [hs, Stage.awaits] at hidle
  | removing => simp [hs, Stage.awaits] at hidle

end Pool

end HandlerHost.Invoker
