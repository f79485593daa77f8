import HandlerHost.Invoker.Pool

/-!
What the steps of a pool can do. Every step accepts a payload, carries out an operation that is on
its way, marks an invocation as cancelled, or is the turn of one invocation: it has some effects and
comes to another stage. What holds of all runs is told from these cases.
-/
namespace HandlerHost.Invoker

open HandlerHost.Host (Errno)
open Child (Life Supervisor)

variable {p q : Pool} {v : Invocation} {m n : Nat} {a : Pool.Action} {e : Effect} {es : List Effect}
  {s : Stage} {as : List Pool.Action}

def Effect.operation? : Effect → Option Operation
  | .operation o => some o
  | _ => none

namespace Stage

def isEnded : Stage → Bool
  | ended _ => true
  | _ => false

@[simp] theorem holdsSlot_waiting : waiting.holdsSlot = false := rfl

@[simp] theorem holdsSlot_ended {r : Ending} : (ended r).holdsSlot = false := rfl

/-- The next thing that happens is the outcome of an operation. -/
def awaits : Stage → Bool
  | rooting _ => true
  | making _ => true
  | writing _ _ _ => true
  | removing _ _ => true
  | _ => false

/-- The stage of an invocation whose caller cancels. -/
def cancel : Stage → Stage
  | running w life s => running w life (s.happen .cancelled)
  | s => s

/-- What an invocation does when its caller goes away. -/
def farewell : Stage → List Effect
  | waiting => []
  | running _ _ s =>
    if s.killed then [.removal, .slotReturned] else [.groupKilled, .removal, .slotReturned]
  | writing _ _ _ => [.removal, .slotReturned]
  | _ => [.slotReturned]

/-- The files after the caller has gone away. -/
def abandon (s : Stage) (h : Host) : Host := s.workspace?.elim h fun w => w.remove h

end Stage

/-- The kill of a process group, unless that was done before. -/
def killing (s s' : Supervisor) : List Effect :=
  if s'.killed && !s.killed then [.groupKilled] else []

namespace Pool

/-- One effect of an invocation. -/
def emit (n : Nat) (p : Pool) : Effect → Pool
  | .slotTaken => { p with free := p.free - 1 }.note n .slotTaken
  | .operation o => { p with flights := p.flights ++ [(⟨n, o⟩ : Flight)] }.note n (.operation o)
  | .slotReturned => { p with free := p.free + 1 }.note n .slotReturned
  | e => p.note n e

/-- Some effects of an invocation, and then its next stage. -/
def turn (p : Pool) (n : Nat) (es : List Effect) (s : Stage) : Pool :=
  (es.foldl (emit n) p).enter n s

/-- Starting the interpreter, which may fail for a reason from outside. -/
def started (p : Pool) (v : Invocation) (i : Interpreter) (w : Workspace) (fault : Option Errno) :
    Except Child.LaunchError Life :=
  match fault with
  | some e => .error ⟨i.program, e⟩
  | none => Child.launch p.host i v.request.language.runnerFile w.path p.config.isolation

/-- The turns of an invocation whose caller does not go away: the action that brings the turn, its
effects in order and the stage it ends in. -/
inductive Turn (p : Pool) (n : Nat) (v : Invocation) : Action → List Effect → Stage → Prop
  | forgo (hs : v.stage = .waiting) (hc : v.cancelled = true) :
      Turn p n v (.acquire n) [] (.ended (.result (.cancelled [])))
  | unresolved {e : Interpreter.Error} (hs : v.stage = .waiting) (hc : v.cancelled = false)
      (hf : 0 < p.free) (hi : Interpreter.resolve p.host v.request.language
        (p.config.commandFor v.request.language) = .error e) :
      Turn p n v (.acquire n) [.slotTaken, .slotReturned] (.ended (.result (.failed e.text [])))
  | root {i : Interpreter} (hs : v.stage = .waiting) (hc : v.cancelled = false)
      (hf : 0 < p.free) (hi : Interpreter.resolve p.host v.request.language
        (p.config.commandFor v.request.language) = .ok i) :
      Turn p n v (.acquire n) [.slotTaken, .operation (.makeRoot p.root)] (.rooting i)
  | directory {i : Interpreter} {fault : Option Errno} (hs : v.stage = .rooting i)
      (ha : v.arrived = some (.ok ())) :
      Turn p n v (.proceed n fault) [.operation (.makeDirectory p.root v.id)] (.making i)
  | unprovided {i : Interpreter} {e : Workspace.Error} {fault : Option Errno}
      (hs : v.stage = .rooting i ∨ v.stage = .making i) (ha : v.arrived = some (.error e)) :
      Turn p n v (.proceed n fault) [.slotReturned] (.ended (.result (.failed e.text [])))
  | first {i : Interpreter} {w : Workspace} {name content : String} {rest : List (String × String)}
      {fault : Option Errno} (hs : v.stage = .making i) (ha : v.arrived = some (.ok ()))
      (hw : w = Workspace.under p.root v.id)
      (hr : Workspace.artifacts v.request = (name, content) :: rest) :
      Turn p n v (.proceed n fault) [.operation (.write w name content)] (.writing i w rest)
  | next {i : Interpreter} {w : Workspace} {name content : String} {rest : List (String × String)}
      {fault : Option Errno} (hs : v.stage = .writing i w ((name, content) :: rest))
      (ha : v.arrived = some (.ok ())) :
      Turn p n v (.proceed n fault) [.operation (.write w name content)] (.writing i w rest)
  | unwritten {i : Interpreter} {w : Workspace} {rest : List (String × String)}
      {e : Workspace.Error} {fault : Option Errno} (hs : v.stage = .writing i w rest)
      (ha : v.arrived = some (.error e)) :
      Turn p n v (.proceed n fault) [.removal, .operation (.remove w)]
        (.removing w (.failed e.text []))
  | start {i : Interpreter} {w : Workspace} {life : Life} {fault : Option Errno}
      (hs : v.stage = .writing i w []) (ha : v.arrived = some (.ok ()))
      (hl : p.started v i w fault = .ok life) :
      Turn p n v (.proceed n fault) [.started] (.running w life v.supervisor)
  | unstarted {i : Interpreter} {w : Workspace} {e : Child.LaunchError} {fault : Option Errno}
      (hs : v.stage = .writing i w []) (ha : v.arrived = some (.ok ()))
      (hl : p.started v i w fault = .error e) :
      Turn p n v (.proceed n fault) [.removal, .operation (.remove w)]
        (.removing w (.failed e.text []))
  | removed {w : Workspace} {r : Result} {o : Operation.Outcome} {fault : Option Errno}
      (hs : v.stage = .removing w r) (ha : v.arrived = some o) :
      Turn p n v (.proceed n fault) [.slotReturned] (.ended (.result r))
  | watch {w : Workspace} {life : Life} {s : Supervisor} {t : Supervisor.Tick}
      (hs : v.stage = .running w life s) (ht : (s.tick t).termination? = none) :
      Turn p n v (.tick n t) (killing s (s.tick t)) (.running w life (s.tick t))
  | finish {w : Workspace} {life : Life} {s : Supervisor} {t : Supervisor.Tick}
      {e : Child.Termination} (hs : v.stage = .running w life s)
      (ht : (s.tick t).termination? = some e) :
      Turn p n v (.tick n t) (killing s (s.tick t) ++ [.removal, .operation (.remove w)])
        (.removing w (p.resultOf v (s.tick t)))

/-- The steps of a pool. -/
inductive Step (p : Pool) : Action → Pool → Prop
  | idle {a : Action} : Step p a p
  | accept {payload : Payload} {id : WorkspaceId} {r : Request}
      (hr : Request.ofPayload payload = .ok r) :
      Step p (.submit payload id) { p with invocations := p.invocations ++ [.start r id] }
  | settle {k : Nat} {fault : Option Errno} {f : Flight} {h : Host} {r : Operation.Outcome}
      (hf : p.flights[k]? = some f) (hr : f.operation.attempt p.host fault = (h, r)) :
      Step p (.settle k fault) ({ p with host := h, flights := p.flights.eraseIdx k }.update f.owner
        fun v => { v with arrived := some r })
  | cancel {a : Action} {n : Nat} {v : Invocation} (hv : p.invocations[n]? = some v)
      (ha : a = .cancel n ∨ a = .tick n (.happen .cancelled)) :
      Step p a (p.update n fun v => { v with cancelled := true, stage := v.stage.cancel })
  | turn {a : Action} {n : Nat} {v : Invocation} {es : List Effect} {s : Stage}
      (hv : p.invocations[n]? = some v) (ht : Turn p n v a es s) : Step p a (p.turn n es s)
  | abort {n : Nat} {v : Invocation} (hv : p.invocations[n]? = some v)
      (hs : v.stage.isEnded = false) :
      Step p (.abort n)
        ({ p with host := v.stage.abandon p.host }.turn n v.stage.farewell (.ended .aborted))

/-- The caller has not gone away. -/
def Admitted (s : Stage) : Prop := s ≠ .waiting ∧ s ≠ .ended .aborted

theorem admitted_of_turn (ht : Turn p n v a es s) : Admitted s := by
  cases ht <;> exact ⟨nofun, nofun⟩

/-- An update depends on what it does to the invocation that is there. -/
theorem update_congr {f g : Invocation → Invocation} (hv : p.invocations[n]? = some v)
    (h : f v = g v) : p.update n f = p.update n g := by
  have hl : p.invocations.modify n f = p.invocations.modify n g := by
    apply List.ext_getElem?
    intro i
    rw [List.getElem?_modify, List.getElem?_modify]
    by_cases hi : n = i
    · subst hi
      simp [hv, h]
    · simp [hi]
  rw [update, hl]
  rfl

/-- A waiting invocation that is cancelled or finds a free slot takes its turn. -/
theorem turn_acquire (hs : v.stage = .waiting) (hf : v.cancelled = true ∨ 0 < p.free) :
    ∃ es s, Turn p n v (.acquire n) es s ∧ p.acquire n v = p.turn n es s := by
  unfold acquire
  split
  · rename_i hc
    exact ⟨_, _, .forgo hs hc, rfl⟩
  · rename_i hc
    have hp : 0 < p.free := hf.resolve_left hc
    have hc : v.cancelled = false := by simpa using hc
    split
    · omega
    · rename_i free hfree
      obtain rfl : free = p.free - 1 := by omega
      cases hi : Interpreter.resolve p.host v.request.language
          (p.config.commandFor v.request.language) with
      | error e =>
        refine ⟨_, _, .unresolved hs hc hp hi, ?_⟩
        simp only [resolve, note, hi]
        rfl
      | ok i =>
        refine ⟨_, _, .root hs hc hp hi, ?_⟩
        simp only [resolve, note, hi]
        rfl

theorem step_acquire (hv : p.invocations[n]? = some v) (hs : v.stage = .waiting) :
    Step p (.acquire n) (p.acquire n v) := by
  by_cases hf : v.cancelled = true ∨ 0 < p.free
  · obtain ⟨es, s, ht, hq⟩ := turn_acquire hs hf
    rw [hq]
    exact .turn hv ht
  · obtain ⟨hc, hfree⟩ := not_or.mp hf
    have hzero : p.free = 0 := by omega
    rw [acquire, if_neg hc, hzero]
    exact .idle

theorem launch_eq {i : Interpreter} {w : Workspace} {fault : Option Errno} :
    p.launch n v i w fault =
      match p.started v i w fault with
      | .error e => p.removeWith n w (.failed e.text [])
      | .ok life => (p.note n .started).enter n (.running w life v.supervisor) := by
  cases fault <;> rfl

/-- An invocation goes on once its operation has been carried out. -/
theorem turn_proceed {r : Operation.Outcome} (fault : Option Errno) (hs : v.stage.awaits = true)
    (ha : v.arrived = some r) :
    ∃ es s, Turn p n v (.proceed n fault) es s ∧ p.proceed n v r fault = p.turn n es s := by
  cases hst : v.stage with
  | rooting i =>
    cases r with
    | ok => exact ⟨_, _, .directory hst ha, by simp only [proceed, hst]; rfl⟩
    | error e => exact ⟨_, _, .unprovided (.inl hst) ha, by simp only [proceed, hst]; rfl⟩
  | making i =>
    cases r with
    | ok => exact ⟨_, _, .first hst ha rfl rfl, by simp only [proceed, hst]; rfl⟩
    | error e => exact ⟨_, _, .unprovided (.inr hst) ha, by simp only [proceed, hst]; rfl⟩
  | writing i w rest =>
    cases r with
    | ok =>
      cases rest with
      | nil =>
        cases hl : p.started v i w fault with
        | error e =>
          exact ⟨_, _, .unstarted hst ha hl, by simp only [proceed, hst, fill, launch_eq, hl]; rfl⟩
        | ok life =>
          exact ⟨_, _, .start hst ha hl, by simp only [proceed, hst, fill, launch_eq, hl]; rfl⟩
      | cons file rest => exact ⟨_, _, .next hst ha, by simp only [proceed, hst]; rfl⟩
    | error e => exact ⟨_, _, .unwritten hst ha, by simp only [proceed, hst]; rfl⟩
  | removing w r => exact ⟨_, _, .removed hst ha, by simp only [proceed, hst]; rfl⟩
  | _ => simp [hst, Stage.awaits] at hs

theorem step_proceed {r : Operation.Outcome} {fault : Option Errno}
    (hv : p.invocations[n]? = some v) (ha : v.arrived = some r) :
    Step p (.proceed n fault) (p.proceed n v r fault) := by
  cases hs : v.stage.awaits with
  | true =>
    obtain ⟨es, s, ht, hq⟩ := turn_proceed _ hs ha
    rw [hq]
    exact .turn hv ht
  | false =>
    have hidle : p.proceed n v r fault = p := by
      unfold proceed
      split <;> simp_all [Stage.awaits]
    rw [hidle]
    exact .idle

/-- A running invocation takes its turn with every tick. -/
theorem turn_tick {w : Workspace} {life : Life} {s : Supervisor} {t : Supervisor.Tick}
    (hs : v.stage = .running w life s) :
    ∃ es q, Turn p n v (.tick n t) es q ∧ p.tick n v w life s t = p.turn n es q := by
  have hkill : (if (s.tick t).killed then p.kill n s else p) =
      (killing s (s.tick t)).foldl (emit n) p := by
    unfold killing kill
    cases (s.tick t).killed <;> cases s.killed <;> rfl
  cases ht : (s.tick t).termination? with
  | none =>
    refine ⟨_, _, .watch hs ht, ?_⟩
    simp only [tick, hkill, ht]
    rfl
  | some e =>
    have hresult : ((killing s (s.tick t)).foldl (emit n) p).resultOf v (s.tick t) =
        p.resultOf v (s.tick t) := by
      unfold killing
      split <;> rfl
    refine ⟨_, _, .finish hs ht, ?_⟩
    rw [turn, List.foldl_append]
    simp only [tick, hkill, ht, hresult]
    rfl

theorem step_tick {w : Workspace} {life : Life} {s : Supervisor} {t : Supervisor.Tick}
    (hv : p.invocations[n]? = some v) (hs : v.stage = .running w life s) :
    Step p (.tick n t) (p.tick n v w life s t) := by
  obtain ⟨es, q, ht, hq⟩ := turn_tick hs
  rw [hq]
  exact .turn hv ht

theorem cancel_eq (hv : p.invocations[n]? = some v) : p.cancel n v =
    p.update n fun v => { v with cancelled := true, stage := v.stage.cancel } := by
  cases hs : v.stage with
  | running w life s =>
    simp only [cancel, hs, update, List.modify_modify_eq]
    exact update_congr hv (by simp [hs, Stage.cancel])
  | _ =>
    simp only [cancel, hs]
    exact update_congr hv (by simp [hs, Stage.cancel])

theorem step_cancel (hv : p.invocations[n]? = some v)
    (ha : a = .cancel n ∨ a = .tick n (.happen .cancelled)) : Step p a (p.cancel n v) := by
  rw [cancel_eq hv]
  exact .cancel hv ha

theorem step_abort (hv : p.invocations[n]? = some v) : Step p (.abort n) (p.abort n v) := by
  cases hs : v.stage with
  | ended e =>
    simp only [abort, hs]
    exact .idle
  | running w life s =>
    have hq := Step.abort hv (by simp [hs, Stage.isEnded])
    simp only [hs, Stage.farewell, Stage.abandon, Stage.workspace?, Option.elim_some] at hq
    simp only [abort, hs, kill]
    cases hk : s.killed with
    | true =>
      rw [hk] at hq
      exact hq
    | false =>
      rw [hk] at hq
      exact hq
  | _ =>
    have hq := Step.abort hv (by simp [hs, Stage.isEnded])
    simp only [hs] at hq
    simp only [abort, hs]
    exact hq

theorem step_onInvocation {f : Invocation → Pool}
    (h : ∀ v, p.invocations[n]? = some v → Step p a (f v)) : Step p a (p.onInvocation n f) := by
  unfold onInvocation
  split
  · exact .idle
  · rename_i v hv
    exact h v hv

/-- Every action makes one of these steps. -/
theorem step_apply : Step p a (p.apply a) := by
  cases a with
  | submit payload id =>
    cases hr : Request.ofPayload payload with
    | error e =>
      simp only [apply, submit, hr]
      exact .idle
    | ok r =>
      simp only [apply, submit, hr]
      exact .accept hr
  | acquire n =>
    apply step_onInvocation
    intro v hv
    split
    · rename_i hs
      exact step_acquire hv hs
    · exact .idle
  | settle k fault =>
    rw [apply, settle]
    split
    · exact .idle
    · rename_i f hf
      exact .settle hf rfl
  | proceed n fault =>
    apply step_onInvocation
    intro v hv
    split
    · exact .idle
    · rename_i r hr
      exact step_proceed hv hr
  | tick n t =>
    have hrun : Step p (.tick n t) (p.onInvocation n fun v =>
        match v.stage with
        | .running w life s => p.tick n v w life s t
        | _ => p) := by
      apply step_onInvocation
      intro v hv
      split
      · rename_i hs
        exact step_tick hv hs
      · exact .idle
    by_cases ht : t = .happen .cancelled
    · subst ht
      exact step_onInvocation fun v hv => step_cancel hv (.inr rfl)
    · rw [apply]
      · exact hrun
      · exact ht
  | cancel n => exact step_onInvocation fun v hv => step_cancel hv (.inl rfl)
  | abort n => exact step_onInvocation fun v hv => step_abort hv

/-- A pool has no invocations at first. -/
theorem eq_of_ofConfig? {c : Config} {h : Host} (hp : ofConfig? c h = some p) :
    p = ⟨c, h, c.maxConcurrent.toNat, [], [], []⟩ := by
  simp only [ofConfig?] at hp
  split at hp
  · cases hp
  · exact (Option.some.inj hp).symm

/-- The effects of an invocation so far, in order. -/
def trace (p : Pool) (n : Nat) : List Effect :=
  ((p.effects.filter fun e => e.1 == n).map Prod.snd).reverse

theorem getElem?_update {f : Invocation → Invocation} :
    (p.update n f).invocations[m]? =
      if n = m then p.invocations[m]?.map f else p.invocations[m]? := by
  rw [update, List.getElem?_modify]
  split <;> cases p.invocations[m]? <;> rfl

theorem apply_cancel (hv : p.invocations[n]? = some v)
    (ha : a = .cancel n ∨ a = .tick n (.happen .cancelled)) :
    (p.apply a).invocations[n]? = some { v with cancelled := true, stage := v.stage.cancel } ∧
      (p.apply a).trace n = p.trace n := by
  have hq : p.apply a = p.cancel n v := by
    rcases ha with rfl | rfl <;> simp only [apply, onInvocation, hv]
  rw [hq, cancel_eq hv, getElem?_update, if_pos rfl, hv]
  exact ⟨rfl, rfl⟩

/-- An accepted payload leaves the invocations that were there where they are. -/
theorem getElem?_accept {w : Invocation} (hv : p.invocations[n]? = some v) :
    (p.invocations ++ [w])[n]? = some v := by
  have hn : n < p.invocations.length := (List.getElem?_eq_some_iff.mp hv).1
  rw [List.getElem?_append_left hn, hv]

theorem foldl_emit_invocations : (es.foldl (emit n) p).invocations = p.invocations := by
  induction es generalizing p with
  | nil => rfl
  | cons e es ih =>
    rw [List.foldl_cons, ih]
    cases e <;> rfl

theorem foldl_emit_host : (es.foldl (emit n) p).host = p.host := by
  induction es generalizing p with
  | nil => rfl
  | cons e es ih =>
    rw [List.foldl_cons, ih]
    cases e <;> rfl

theorem trace_emit : (emit n p e).trace m = p.trace m ++ if n = m then [e] else [] := by
  have he : (emit n p e).effects = (n, e) :: p.effects := by cases e <;> rfl
  rw [trace, he, List.filter_cons]
  by_cases h : n = m <;> simp [h, trace]

theorem trace_foldl_emit :
    (es.foldl (emit n) p).trace m = p.trace m ++ if n = m then es else [] := by
  induction es generalizing p with
  | nil => simp
  | cons e es ih =>
    rw [List.foldl_cons, ih, trace_emit]
    by_cases h : n = m <;> simp [h]

theorem trace_turn : (p.turn n es s).trace m = p.trace m ++ if n = m then es else [] :=
  trace_foldl_emit

theorem host_turn : (p.turn n es s).host = p.host := foldl_emit_host

theorem config_turn : (p.turn n es s).config = p.config := by
  have h : (es.foldl (emit n) p).config = p.config := by
    induction es generalizing p with
    | nil => rfl
    | cons e es ih =>
      rw [List.foldl_cons, ih]
      cases e <;> rfl
  exact h

theorem getElem?_turn : (p.turn n es s).invocations[m]? =
    if n = m then p.invocations[m]?.map fun v => { v with stage := s, arrived := none }
    else p.invocations[m]? := by
  rw [turn, enter, getElem?_update, foldl_emit_invocations]

theorem run_append {as bs : List Action} : p.run (as ++ bs) = (p.run as).run bs :=
  List.foldl_append

/-- What holds at first and after every step holds after every run. -/
theorem run_invariant {P : Pool → Prop} (hp : P p)
    (hs : ∀ {p a q}, P p → Step p a q → P q) : P (p.run as) := by
  induction as generalizing p with
  | nil => exact hp
  | cons a as ih => exact ih (hs hp step_apply)

theorem flights_turn : (p.turn n es s).flights =
    p.flights ++ (es.filterMap Effect.operation?).map fun o => ⟨n, o⟩ := by
  have h : (es.foldl (emit n) p).flights =
      p.flights ++ (es.filterMap Effect.operation?).map fun o => ⟨n, o⟩ := by
    induction es generalizing p with
    | nil => simp
    | cons e es ih =>
      rw [List.foldl_cons, ih]
      cases e <;> simp [emit, note, List.filterMap_cons, Effect.operation?]
  exact h

end Pool

end HandlerHost.Invoker
