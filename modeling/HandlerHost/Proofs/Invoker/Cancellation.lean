import HandlerHost.Proofs.Invoker.Answers

/-!
Cancellation. An invocation that is cancelled while it prepares carries the news to its supervisor,
and a supervisor that has the news acts on it before anything else. So up to the last poll that
watches the process only a failure before the process runs can come first.
-/
namespace HandlerHost

open Child (Supervisor Termination)
open Host (FileSystem)
open Text (Dictionary)

namespace Child.Supervisor

variable {s : Supervisor} {t : Tick}

/-- The supervisor knows of a cancellation in time, or has acted on it. -/
def Bound (s : Supervisor) : Prop :=
  s.verdict? = some .cancelled ∨ s.verdict? = none ∧ s.sources.cancelled = true

theorem bound_happen_cancelled (h : s.verdict? = none) : (s.happen .cancelled).Bound :=
  .inr ⟨h, rfl⟩

theorem bound_tick (h : s.Bound) : (s.tick t).Bound := by
  rcases h with hv | ⟨hv, hc⟩
  · exact .inl (verdict_tick hv)
  · cases t with
    | happen e =>
      refine .inr ⟨hv, ?_⟩
      cases e <;> simp only [tick, happen, Sources.happen, hc]
      split
      · exact hc
      · rfl
    | poll => exact .inl (poll_cancelled (watching_of_unsettled hv) hc)

/-- What it returns in the end is that it was cancelled. -/
theorem eq_cancelled_of_bound {e : Termination} (h : s.Bound) (he : s.termination? = some e) :
    e = .cancelled := by
  have hv := verdict_of_termination he
  rcases h with h | ⟨h, -⟩
  · exact Option.some.inj (hv.symm.trans h)
  · rw [h] at hv
    cases hv

theorem unsettled_of_watching (h : s.isWatching = true) : s.verdict? = none := by
  simp [verdict?, watching_iff.mp h]

end Child.Supervisor

namespace Execution

variable {t : Termination} {lines : List Output.Line} {logLines timeoutMs : Nat}

theorem ofLines_cancelled :
    (ofLines .cancelled lines logLines timeoutMs).outcome = .cancelled ∧
      (ofLines .cancelled lines logLines timeoutMs).response =
        .internalError "Invocation cancelled" :=
  ⟨rfl, rfl⟩

theorem outcome_ne_failed :
    (ofLines t lines logLines timeoutMs).outcome ≠ .failed := by
  cases t <;> simp [ofLines, finalize, completed, timedOut, Result.cancelled]

end Execution

namespace Invoker

variable {c : Config} {h : Host} {p q : Pool} {v w : Invocation} {n : Nat} {a : Pool.Action}
  {es us : List Effect} {s : Stage} {ms : List Move} {r : Result} {text : String}

namespace Stage

/-- The stages before the process runs. -/
def prepares : Stage → Bool
  | waiting => true
  | s => s.provisions

/-- The stages in which a cancellation counts: up to the last poll that watches the process. -/
def heeds : Stage → Bool
  | running _ _ s => s.isWatching
  | s => s.prepares

theorem prepares_cancel : s.cancel.prepares = s.prepares := by cases s <;> rfl

theorem cancel_eq_waiting : s.cancel = .waiting ↔ s = .waiting := by
  cases s <;> simp [cancel]

theorem cancel_ne_ended {e : Ending} (hs : s.heeds = true) : s.cancel ≠ .ended e := by
  intro he
  cases s with
  | ended e => cases hs
  | _ => cases he

theorem result?_of_heeds (hs : s.heeds = true) : s.result? = none := by
  cases s <;> first | rfl | cases hs

end Stage

/-- An invocation that knows of a cancellation in time, and so does its supervisor. -/
structure Doomed (v : Invocation) : Prop where
  noted : v.stage.prepares = true → v.cancelled = true
  bound : ∀ w life s, v.stage = .running w life s → s.Bound

theorem doomed_cancel (hs : v.stage.heeds = true) :
    Doomed { v with cancelled := true, stage := v.stage.cancel } := by
  refine ⟨fun _ => rfl, fun w life s hr => ?_⟩
  obtain ⟨sup, hv, rfl⟩ := Stage.cancel_eq_running hr
  rw [hv] at hs
  exact Supervisor.bound_happen_cancelled (Supervisor.unsettled_of_watching hs)

namespace Pool

theorem prepares_of_turn (ht : Turn p n v a es s) (hs : s.prepares = true) :
    v.stage.prepares = true := by
  cases ht with
  | root hv _ _ _ => rw [hv]; rfl
  | directory hv _ => rw [hv]; rfl
  | first hv _ _ _ => rw [hv]; rfl
  | next hv _ => rw [hv]; rfl
  | _ => cases hs

theorem prepares_of_setback (hf : Setback p n v a text) : v.stage.prepares = true := by
  cases hf with
  | lookup hs _ _ _ => rw [hs]; rfl
  | operation hs _ =>
    cases hv : v.stage <;> simp_all [Stage.provisions, Stage.prepares]
  | start hs _ _ => rw [hs]; rfl

theorem doomed_turn (ht : Turn p n v a es s) (hv : Doomed v) :
    Doomed { v with stage := s, arrived := none } := by
  refine ⟨fun hs => hv.noted (prepares_of_turn ht hs), fun w life sup hs => ?_⟩
  cases ht with
  | start hst _ _ =>
    have hc := hv.noted (by rw [hst]; rfl)
    cases hs
    rw [Invocation.supervisor, if_pos hc]
    exact Supervisor.bound_happen_cancelled rfl
  | watch hst _ =>
    cases hs
    exact Supervisor.bound_tick (hv.bound _ _ _ hst)
  | _ => cases hs

theorem doomed_fate (hf : Fate p n v a es w) (hv : Doomed v) : Doomed w := by
  cases hf with
  | untouched => exact hv
  | arrived => exact ⟨hv.noted, hv.bound⟩
  | cancelled _ =>
    refine ⟨fun _ => rfl, fun w life s hs => ?_⟩
    obtain ⟨sup, hst, rfl⟩ := Stage.cancel_eq_running hs
    exact Supervisor.bound_tick (t := .happen .cancelled) (hv.bound _ _ _ hst)
  | turned ht => exact doomed_turn ht hv
  | aborted _ =>
    refine ⟨nofun, fun w life s hs => ?_⟩
    cases hs

/-- Nothing but a failure before the process runs can be decided instead. -/
theorem decision_of_doomed (hv : Doomed v) (hd : Decision p n v a r) :
    r.outcome = .cancelled ∧ r.response = .internalError "Invocation cancelled" ∨
      ∃ text, Setback p n v a text ∧ r = .failed text [] := by
  cases hd with
  | forgone => exact .inl ⟨rfl, rfl⟩
  | failed hf => exact .inr ⟨_, hf, rfl⟩
  | watched hs ht =>
    obtain rfl := Supervisor.eq_cancelled_of_bound (Supervisor.bound_tick (hv.bound _ _ _ hs)) ht
    rw [resultOf, Execution.ofSupervisor, ht]
    exact .inl Execution.ofLines_cancelled

/-- What an invocation has done to processes: nothing at all while it waits, and it has started none
before its process runs, or if it fails. -/
structure Unspawned (v : Invocation) (us : List Effect) : Prop where
  waits : v.stage = .waiting → us = []
  prepares : v.stage.prepares = true → .started ∉ us
  failed : ∀ r, v.stage.result? = some r → r.outcome = .failed → .started ∉ us

theorem running_of_started (ht : Turn p n v a es s) (hs : .started ∈ es) :
    ∃ w life sup, s = .running w life sup := by
  cases ht with
  | start => exact ⟨_, _, _, rfl⟩
  | watch => exact ⟨_, _, _, rfl⟩
  | finish =>
    unfold killing at hs
    split at hs <;> simp at hs
  | _ => simp at hs

theorem unspawned_turn (ht : Turn p n v a es s) (hv : Unspawned v us) :
    Unspawned { v with stage := s, arrived := none } (us ++ es) := by
  have hnone : ∀ {us}, .started ∉ us → (∀ w life sup, s ≠ .running w life sup) →
      .started ∉ us ++ es := by
    intro us hus hs hmem
    rcases List.mem_append.mp hmem with hmem | hmem
    · exact hus hmem
    · obtain ⟨w, life, sup, rfl⟩ := running_of_started ht hmem
      exact hs w life sup rfl
  refine ⟨fun hs => ?_, fun hs => ?_, fun r hr hfailed => ?_⟩
  · exact absurd hs (admitted_of_turn ht).1
  · refine hnone (hv.prepares (prepares_of_turn ht hs)) ?_
    rintro w life sup rfl
    cases hs
  · have hs : ∀ w life sup, s ≠ .running w life sup := by
      rintro w life sup rfl
      cases hr
    cases hr' : v.stage.result? with
    | some r' =>
      obtain rfl : r = r' := Option.some.inj (hr.symm.trans (decided_turn ht hr'))
      exact hnone (hv.failed r hr' hfailed) hs
    | none =>
      cases decision_of_turn ht hr' hr with
      | forgone => cases hfailed
      | failed hf => exact hnone (hv.prepares (prepares_of_setback hf)) hs
      | watched => exact absurd hfailed Execution.outcome_ne_failed

theorem unspawned_fate (hf : Fate p n v a es w) (hv : Unspawned v us) :
    Unspawned w (us ++ es) := by
  cases hf with
  | untouched =>
    rw [List.append_nil]
    exact hv
  | arrived =>
    rw [List.append_nil]
    exact ⟨hv.waits, hv.prepares, hv.failed⟩
  | cancelled _ =>
    rw [List.append_nil]
    exact ⟨fun hs => hv.waits (Stage.cancel_eq_waiting.mp hs),
      fun hs => hv.prepares (Stage.prepares_cancel.symm.trans hs),
      fun r hr => hv.failed r (Stage.result?_cancel.symm.trans hr)⟩
  | turned ht => exact unspawned_turn ht hv
  | aborted _ => exact ⟨nofun, nofun, nofun⟩

theorem unspawned_play (hp : ofConfig? c h = some p)
    (hv : (p.play ms).invocations[n]? = some v) : Unspawned v ((p.play ms).trace n) := by
  refine play_each (P := fun p n v => Unspawned v (p.trace n)) hp ?_ ?_ (fun hv => hv) hv
  · intro q n r id _ htrace
    rw [htrace]
    exact ⟨fun _ => rfl, fun _ => List.not_mem_nil, nofun⟩
  · intro p a q n v hv hP hq
    obtain ⟨w, es, hf, hw, htrace, -⟩ := fate_of_step hq hv
    refine ⟨w, hw, ?_⟩
    rw [htrace]
    exact unspawned_fate hf hP

/-- An invocation that waits and is cancelled has done nothing and never will. -/
structure Withdrawn (v : Invocation) (us : List Effect) : Prop where
  idle : us = []
  stage : v.stage = .waiting ∧ v.cancelled = true ∨ v.stage = .ended (.result (.cancelled [])) ∨
    v.stage = .ended .aborted

theorem withdrawn_fate (hf : Fate p n v a es w) (hv : Withdrawn v us) :
    Withdrawn w (us ++ es) := by
  obtain ⟨rfl, hs⟩ := hv
  cases hf with
  | untouched => exact ⟨rfl, hs⟩
  | arrived => exact ⟨rfl, hs⟩
  | cancelled _ =>
    refine ⟨rfl, ?_⟩
    rcases hs with ⟨hs, -⟩ | hs | hs
    · exact .inl ⟨congrArg Stage.cancel hs, rfl⟩
    · exact .inr (.inl (congrArg Stage.cancel hs))
    · exact .inr (.inr (congrArg Stage.cancel hs))
  | turned ht =>
    obtain ⟨hs, hc⟩ := hs.resolve_right (by
      have hready := (turn_ready ht).1
      rintro (hs | hs) <;> simp [hs, Stage.isEnded] at hready)
    cases ht with
    | forgo => exact ⟨rfl, .inr (.inl rfl)⟩
    | unprovided hs' => rcases hs' with hs' | hs' <;> simp [hs] at hs'
    | _ => simp_all
  | aborted hend =>
    refine ⟨?_, .inr (.inr rfl)⟩
    rcases hs with ⟨hs, -⟩ | hs | hs
    · rw [hs]
      rfl
    · simp [hs, Stage.isEnded] at hend
    · simp [hs, Stage.isEnded] at hend

/-- Cancellation dominates, in a pool that starts at rest, whatever has been done and will be: an
invocation that is cancelled while it waits, prepares or is watched comes to a result unless its
caller goes away. The result is that it was cancelled, and its response is always the same; or
something has failed before its process was started, and it never is. If it was cancelled while it
waited, even for a free slot, it does nothing at all and has no logs. -/
theorem cancellation_dominates {b : Action} (hp : ofConfig? c h = some p)
    (hv : (p.play ms).invocations[n]? = some v) (hs : v.stage.heeds = true)
    (hb : b = .cancel n ∨ b = .tick n (.happen .cancelled)) (ns : List Move) :
    let q := (p.play ms).apply b
    let o := q.play ns
    ∃ w, o.invocations[n]? = some w ∧ w.request = v.request ∧
      (w.stage = .ended .aborted → .act (.abort n) ∈ ns) ∧
      (w.stage ≠ .ended .aborted → Comes n (Returned n) o) ∧
      (∀ result, w.stage = .ended (.result result) →
        result.outcome = .cancelled ∧ result.response = .internalError "Invocation cancelled" ∨
        result.outcome = .failed ∧ .started ∉ o.trace n ∧
          ∃ pre a u text, pre ++ [.act a] <+: ns ∧ (q.play pre).invocations[n]? = some u ∧
            Setback (q.play pre) n u a text ∧ result = .failed text []) ∧
      (v.stage = .waiting → o.trace n = [] ∧
        ∀ result, w.stage = .ended (.result result) → result = .cancelled []) := by
  intro q o
  let v' : Invocation := { v with cancelled := true, stage := v.stage.cancel }
  obtain ⟨hq, htrace⟩ : q.invocations[n]? = some v' ∧ q.trace n = (p.play ms).trace n :=
    apply_cancel hv hb
  have hnone : v'.stage.result? = none :=
    Stage.result?_cancel.trans (Stage.result?_of_heeds hs)
  have hpresent : v'.stage ≠ .ended .aborted := Stage.cancel_ne_ended hs
  have hplay : o = p.play (ms ++ .act b :: ns) := by
    rw [play_append]
    rfl
  have hdoomed : ∀ ns : List Move, ∃ w, (q.play ns).invocations[n]? = some w ∧
      w.request = v.request ∧ Doomed w := fun ns =>
    play_invocation (P := fun w _ => w.request = v.request ∧ Doomed w) hq ⟨rfl, doomed_cancel hs⟩
      fun _ hf hw => ⟨(request_of_fate hf).trans hw.1, doomed_fate hf hw.2⟩
  obtain ⟨w, hw, hrequest, hd⟩ : ∃ w, o.invocations[n]? = some w ∧ _ := hdoomed ns
  refine ⟨w, hw, hrequest, abort_of_aborted hq hpresent hw, fun ha => ?_, fun result hr => ?_, ?_⟩
  · refine comes ?_ ha fun hs => .inl (hd.noted (by rw [hs]; rfl))
    rw [hplay] at hw ⊢
    exact attended_play hp hw
  · obtain ⟨pre, a, u, hpre, hu, hdecided⟩ :=
      decision_of_result hq hnone hw (congrArg Stage.result? hr)
    obtain ⟨u', hu', -, hdoomed⟩ := hdoomed pre
    obtain rfl : u = u' := Option.some.inj (hu.symm.trans hu')
    refine (decision_of_doomed hdoomed hdecided).imp_right ?_
    rintro ⟨text, hf, rfl⟩
    refine ⟨rfl, ?_, pre, a, u, text, hpre, hu, hf, rfl⟩
    have hfailed := congrArg Stage.result? hr
    rw [hplay] at hw ⊢
    exact (unspawned_play hp hw).failed _ hfailed rfl
  · intro hwaits
    have hidle : q.trace n = [] := htrace.trans ((unspawned_play hp hv).waits hwaits)
    obtain ⟨u, hu, hidle, hstage⟩ : ∃ u, o.invocations[n]? = some u ∧ Withdrawn u (o.trace n) :=
      play_invocation (P := Withdrawn) hq ⟨hidle, .inl ⟨congrArg Stage.cancel hwaits, rfl⟩⟩
        fun _ => withdrawn_fate
    obtain rfl : w = u := Option.some.inj (hw.symm.trans hu)
    refine ⟨hidle, fun result hr => ?_⟩
    rcases hstage with ⟨hs, -⟩ | hs | hs
    · rw [hr] at hs
      cases hs
    · rw [hr] at hs
      cases hs
      rfl
    · rw [hr] at hs
      cases hs

/-- The caller cancels while the root is made, and the root cannot be made. -/
theorem cancellation_dominates_denied :
    let c : Config := { Config.empty with
      workspaceRoot := some "/w", interpreters := Dictionary.empty.insert "python" ["/i"] }
    let h : Host := ⟨FileSystem.empty.set ["i"] (.file "" true), [], .empty⟩
    let p : Pool := ⟨c, h, 16, [], [], []⟩
    let ms : List Move := [.act (.submit (.ofCode "python" "x") ⟨0⟩), .act (.acquire 0)]
    let ns : List Move := [.act (.settle 0 (some .denied)), .act (.proceed 0 none)]
    let o := ((p.play ms).apply (.cancel 0)).play ns
    (∃ i, (p.play ms).stage? 0 = some (.rooting i)) ∧
      o.stage? 0 =
        some (.ended (.result (.failed (Workspace.Error.createRoot "/w" .denied).text []))) ∧
      .started ∉ o.trace 0 := by
  intro c h p ms ns o
  let r : Request := ⟨.python, "x", .emptyObject, defaultHandler, none⟩
  let i : Interpreter := ⟨"/i", []⟩
  have hrequest : Request.ofPayload (.ofCode "python" "x") = .ok r := ofPayload_python
  have hinterpreter : Interpreter.resolve h .python (c.commandFor .python) = .ok i := by
    decide +kernel
  have hresolved : ∀ h', c.resolvedRoot h' = "/w" := fun _ => rfl
  have hrooting : (p.play ms).invocations = [⟨r, ⟨0⟩, false, .rooting i, none⟩] := by
    simp [p, ms, r, play, move, apply, submit, hrequest, Except.map, onInvocation, acquire,
      resolve, Invocation.start, note, hinterpreter, enterWith, enter, update]
  have hended : o.stage? 0 =
      some (.ended (.result (.failed (Workspace.Error.createRoot "/w" .denied).text []))) := by
    simp [o, p, ms, ns, r, play, move, apply, submit, hrequest, Except.map, onInvocation, acquire,
      resolve, Invocation.start, note, hinterpreter, enterWith, enter, update, cancel, settle,
      Operation.attempt, Operation.fail, proceed, Pool.root, hresolved, leave, stage?]
  have hpool : ofConfig? c h = some p := rfl
  have hv : (p.play ms).invocations[0]? = some ⟨r, ⟨0⟩, false, .rooting i, none⟩ := by
    rw [hrooting]
    rfl
  obtain ⟨w, hw, -, -, -, hresult, -⟩ := cancellation_dominates hpool hv rfl (.inl rfl) ns
  have hstage : w.stage =
      .ended (.result (.failed (Workspace.Error.createRoot "/w" .denied).text [])) := by
    change o.invocations[0]? = some w at hw
    rw [stage?, hw] at hended
    exact Option.some.inj hended
  refine ⟨⟨i, ?_⟩, hended, ?_⟩
  · rw [stage?, hv]
    rfl
  · rcases hresult _ hstage with ⟨hcancelled, -⟩ | ⟨-, hstarted, -⟩
    · cases hcancelled
    · exact hstarted

end Pool

end Invoker

end HandlerHost
