import HandlerHost.Proofs.Execution.Classification
import HandlerHost.Proofs.Invoker.Cleanup
import HandlerHost.Proofs.Invoker.Completion

/-!
What a caller is told. A payload that is refused leaves all as it was. For any other there is a
result in the end, which is decided in one step: the invocation is cancelled before it has a slot,
something fails before its process runs, or its process has been watched to the end.
-/
namespace HandlerHost

open Output (Line)
open Text (Dictionary)

namespace Execution

theorem status_of_not_completed {t : Child.Termination} {lines : List Line}
    {logLines timeoutMs : Nat} (h : (ofLines t lines logLines timeoutMs).outcome ≠ .completed) :
    (ofLines t lines logLines timeoutMs).response.statusCode = 500 := by
  cases t with
  | exited e => exact absurd rfl h
  | exitedPastDeadline e => exact absurd rfl h
  | timedOut => rfl
  | cancelled => rfl

end Execution

/-- A reply to a result. It has status 500 unless the process has ended by itself. -/
def Reply.Tells (reply : Reply) (result : Result) : Prop :=
  reply = ⟨true, some result.response, none, some result.logs⟩ ∧
    (result.outcome ≠ .completed → result.response.statusCode = 500)

namespace Invoker

open Child (Life Supervisor Termination)

variable {c : Config} {h : Host} {p q : Pool} {v w : Invocation} {n : Nat} {a : Pool.Action}
  {es : List Effect} {s : Stage} {ms : List Move} {r : Result} {text : String}

theorem Stage.result?_cancel : s.cancel.result? = s.result? := by cases s <;> rfl

namespace Pool

/-- The ways in which an action decides the result of an invocation. -/
inductive Decision (p : Pool) (n : Nat) (v : Invocation) : Action → Result → Prop
  | forgone (hs : v.stage = .waiting) (hc : v.cancelled = true) :
      Decision p n v (.acquire n) (.cancelled [])
  | failed {a : Action} {text : String} (hf : Setback p n v a text) :
      Decision p n v a (.failed text [])
  | watched {w : Workspace} {life : Life} {s : Supervisor} {t : Supervisor.Tick} {e : Termination}
      (hs : v.stage = .running w life s) (ht : (s.tick t).termination? = some e) :
      Decision p n v (.tick n t) (p.resultOf v (s.tick t))

theorem decision_of_turn (ht : Turn p n v a es s) (hv : v.stage.result? = none)
    (hr : s.result? = some r) : Decision p n v a r := by
  cases ht with
  | forgo hs hc =>
    cases hr
    exact .forgone hs hc
  | unresolved hs hc hf hi =>
    cases hr
    exact .failed (.lookup hs hc hf hi)
  | unprovided hs ha =>
    cases hr
    exact .failed (.operation (by rcases hs with hs | hs <;> rw [hs] <;> rfl) ha)
  | unwritten hs ha =>
    cases hr
    exact .failed (.operation (by rw [hs]; rfl) ha)
  | unstarted hs ha hl =>
    cases hr
    exact .failed (.start hs ha hl)
  | removed hs _ =>
    rw [hs] at hv
    cases hv
  | finish hs ht =>
    cases hr
    exact .watched hs ht
  | _ => cases hr

/-- A result has been decided at one step on the way. -/
theorem decision_of_result (hv : p.invocations[n]? = some v) (hn : v.stage.result? = none)
    (hw : (p.play ms).invocations[n]? = some w) (hr : w.stage.result? = some r) :
    ∃ pre a u, pre ++ [.act a] <+: ms ∧ (p.play pre).invocations[n]? = some u ∧
      Decision (p.play pre) n u a r := by
  induction ms using List.reverseRecOn generalizing w with
  | nil =>
    obtain rfl : v = w := Option.some.inj (hv.symm.trans hw)
    rw [hn] at hr
    cases hr
  | append_singleton ms m ih =>
    have hearlier : ∀ {u}, (p.play ms).invocations[n]? = some u → u.stage.result? = some r →
        ∃ pre a u, pre ++ [.act a] <+: ms ++ [m] ∧ (p.play pre).invocations[n]? = some u ∧
          Decision (p.play pre) n u a r := by
      intro u hu hr
      obtain ⟨pre, a, u, hpre, hu, hd⟩ := ih hu hr
      exact ⟨pre, a, u, hpre.trans (List.prefix_append _ _), hu, hd⟩
    rw [play_append] at hw
    cases m with
    | change fs => exact hearlier hw hr
    | act a =>
      obtain ⟨u, hu⟩ := getElem?_play hv
      obtain ⟨w', es, hf, hw', -⟩ := fate_of_step (step_apply (a := a)) hu
      obtain rfl : w' = w := Option.some.inj (hw'.symm.trans hw)
      cases hf with
      | untouched => exact hearlier hu hr
      | arrived => exact hearlier hu hr
      | cancelled _ => exact hearlier hu (Stage.result?_cancel.symm.trans hr)
      | turned ht =>
        cases hn' : u.stage.result? with
        | none => exact ⟨ms, a, u, List.prefix_rfl, hu, decision_of_turn ht hn' hr⟩
        | some r' =>
          obtain rfl : r = r' := Option.some.inj (hr.symm.trans (decided_turn ht hn'))
          exact hearlier hu hn'
      | aborted _ => cases hr

/-- What is decided is the handler's own response, or one with status 500. -/
theorem status_of_decision (hd : Decision p n v a r) (hr : r.outcome ≠ .completed) :
    r.response.statusCode = 500 := by
  cases hd with
  | forgone => rfl
  | failed => rfl
  | watched => exact Execution.status_of_not_completed hr

theorem request_of_fate (hf : Fate p n v a es w) : w.request = v.request := by
  cases hf <;> rfl

/-- Only a caller that goes away ends an invocation without a result. -/
theorem abort_of_aborted (hv : p.invocations[n]? = some v) (hs : v.stage ≠ .ended .aborted)
    (hw : (p.play ms).invocations[n]? = some w) (ha : w.stage = .ended .aborted) :
    .act (.abort n) ∈ ms := by
  have hplay : ∃ u, (p.play ms).invocations[n]? = some u ∧
      (u.stage = .ended .aborted → .act (.abort n) ∈ ms) := by
    refine play_invocation (P := fun u _ => u.stage = .ended .aborted → _) hv
      (fun he => absurd he hs) ?_
    intro q a v es w us ha hf hP he
    cases hf with
    | untouched => exact hP he
    | arrived => exact hP he
    | cancelled _ =>
      apply hP
      cases hst : v.stage <;> simp_all [Stage.cancel]
    | turned ht => exact absurd he (admitted_of_turn ht).2
    | aborted _ => exact ha
  obtain ⟨u, hu, hP⟩ := hplay
  obtain rfl : u = w := Option.some.inj (hu.symm.trans hw)
  exact hP ha

/-- Some actions lead from a pool to another. -/
def Reaches (p q : Pool) : Prop := ∃ as, q = p.run as

theorem reaches_refl : Reaches p p := ⟨[], rfl⟩

theorem Reaches.run {as : List Action} (h : Reaches p q) : Reaches p (q.run as) := by
  obtain ⟨bs, rfl⟩ := h
  exact ⟨bs ++ as, run_append.symm⟩

theorem Reaches.apply (h : Reaches p q) : Reaches p (q.apply a) := by
  obtain ⟨bs, rfl⟩ := h
  refine ⟨bs ++ [a], ?_⟩
  rw [run_append]
  rfl

theorem Reaches.carryOut {k : Nat} (h : Reaches p q) : Reaches p (q.carryOut n k) := by
  induction k generalizing q with
  | zero => exact h
  | succ k ih => exact ih h.run.apply

theorem Reaches.watchFrom {call : Call} {startAt : Nat} (h : Reaches p q) :
    Reaches p (q.watchFrom n call startAt).1 := by
  simp only [Pool.watchFrom]
  split
  · exact h
  · split
    · dsimp only
      split
      · exact h.run.apply
      · exact h.run.carryOut
    · exact h

theorem Reaches.runFrom {call : Call} {slotAt : Nat} (h : Reaches p q) :
    Reaches p (q.runFrom n call slotAt).1 := by
  simp only [Pool.runFrom]
  split
  · exact h.apply.carryOut.watchFrom
  · dsimp only
    exact h.apply.apply

section

variable {payload : Payload} {id : WorkspaceId} {request : Request}

theorem submit_eq (hr : Request.ofPayload payload = .ok request) :
    p.submit payload id = .ok (p.apply (.submit payload id)) := by
  simp only [apply, submit, hr]
  rfl

theorem length_submit (hr : Request.ofPayload payload = .ok request) :
    (p.apply (.submit payload id)).invocations.length = p.invocations.length + 1 := by
  simp [apply, submit, hr, Except.map]

theorem getElem?_submit (hr : Request.ofPayload payload = .ok request) :
    (p.apply (.submit payload id)).invocations[p.invocations.length]? =
      some (.start request id) := by
  simp [apply, submit, hr, Except.map]

theorem free_submit (hr : Request.ofPayload payload = .ok request) :
    (p.apply (.submit payload id)).free = p.free := by
  simp [apply, submit, hr, Except.map]

end

/-- The answer to a call whose payload is accepted is how its invocation has ended. -/
theorem reaches_call {request : Request} (p : Pool) (call : Call) (slotAt : Option Nat)
    (hr : Request.ofPayload call.payload = .ok request) :
    ∃ o, Reaches (p.apply (.submit call.payload call.id)) o ∧ (p.call call slotAt).2.1 =
      .ended ((o.invocations[p.invocations.length]?.bind Invocation.ending?).getD .aborted) := by
  simp only [Pool.call, submit_eq hr, length_submit hr, Nat.add_sub_cancel]
  split
  · exact ⟨_, reaches_refl.runFrom, rfl⟩
  · exact ⟨_, reaches_refl.apply.apply, rfl⟩
  · exact ⟨_, reaches_refl.apply, rfl⟩

theorem play_acts {as : List Action} : p.play (as.map .act) = p.run as := by
  rw [play, Pool.run, List.foldl_map]
  rfl

/-- A result that has been decided after a payload was accepted. -/
theorem status_of_result {payload : Payload} {id : WorkspaceId} {request : Request}
    (hr : Request.ofPayload payload = .ok request)
    (hv : ((p.apply (.submit payload id)).play ms).invocations[p.invocations.length]? = some v)
    (hs : v.stage = .ended (.result r)) (hn : r.outcome ≠ .completed) :
    r.response.statusCode = 500 := by
  obtain ⟨pre, a, u, -, -, hd⟩ :=
    decision_of_result (getElem?_submit hr) rfl hv (congrArg Stage.result? hs)
  exact status_of_decision hd hn

/-- A caller that gets a reply is told the result of its invocation. -/
theorem tells_of_call {request : Request} {reply : Reply} (p : Pool) (call : Call)
    (slotAt : Option Nat) (hr : Request.ofPayload call.payload = .ok request)
    (hreply : (p.call call slotAt).2.1.reply? = some reply) : ∃ result, reply.Tells result := by
  obtain ⟨o, ⟨as, rfl⟩, hanswer⟩ := reaches_call p call slotAt hr
  rw [hanswer, ← play_acts] at hreply
  generalize hv : ((p.apply _).play _).invocations[p.invocations.length]? = v? at hreply
  cases v? with
  | none => cases hreply
  | some v =>
    cases hs : v.stage with
    | ended e =>
      cases e with
      | result r =>
        obtain rfl : reply = .ofResult r := by
          simpa [Invocation.ending?, hs, Answer.reply?] using hreply.symm
        exact ⟨r, rfl, status_of_result hr hv hs⟩
      | aborted => simp [Invocation.ending?, hs, Answer.reply?] at hreply
    | _ => simp [Invocation.ending?, hs, Answer.reply?] at hreply

/-- A caller that stays gets a reply if there is a slot for the call or it is cancelled. -/
theorem reply_of_stay {request : Request} (p : Pool) (call : Call) (slotAt : Option Nat)
    (hr : Request.ofPayload call.payload = .ok request) (ht : call.abortAt = none)
    (hc : slotAt = none → call.cancelAt ≠ none) (hf : slotAt ≠ none → 0 < p.free) :
    ∃ reply, (p.call call slotAt).2.1.reply? = some reply := by
  have hp : Attended (p.apply (.submit call.payload call.id)) p.invocations.length
      (.start request call.id) := attended_start (getElem?_submit hr)
  have hreply : ∀ {o : Pool}, Returned p.invocations.length o →
      ∃ reply, (Answer.ended ((o.invocations[p.invocations.length]?.bind
        Invocation.ending?).getD .aborted)).reply? = some reply := by
    rintro o ⟨v, r, hv, hs⟩
    exact ⟨.ofResult r, by simp [hv, Invocation.ending?, hs, Answer.reply?]⟩
  simp only [Pool.call, submit_eq hr, length_submit hr, Nat.add_sub_cancel]
  rcases wait_of_stay ht hc with hw | ⟨s, hslot, hw⟩
  · simp only [hw]
    exact hreply (returned_cancelled hp rfl)
  · have hfree : 0 < (p.apply (.submit call.payload call.id)).free := by
      rw [free_submit hr]
      exact hf (by simp [hslot])
    simp only [hw]
    exact hreply (returned_runFrom hp rfl rfl hfree ht)

/-- In a pool that starts at rest, whatever has been done: a payload that is refused is answered
with the reason alone and changes nothing, also if its caller has cancelled or goes away; every
other is accepted. A call that it comes with and whose caller stays gets a reply if there is a slot
for it or it is cancelled, and each reply tells of a result. Whatever is done once it is accepted,
it is not answered only if its caller goes away, comes to a result if there are slots or its caller
cancels, and is answered with its response and its logs, where the response has status 500 unless
the process has ended by itself. -/
theorem answered (hp : ofConfig? c h = some p) (ms : List Move) (payload : Payload)
    (id : WorkspaceId) :
    let q := p.play ms
    let n := q.invocations.length
    (∀ e, Request.ofPayload payload = .error e →
      (Answer.refused e).reply? = some ⟨false, none, some e.text, none⟩ ∧
      q.apply (.submit payload id) = q ∧
      ∀ cancelAt abortAt slotAt,
        q.call ⟨payload, id, cancelAt, abortAt⟩ slotAt = (q, .refused e, none)) ∧
    ∀ request, Request.ofPayload payload = .ok request →
      (∀ cancelAt slotAt, (slotAt = none → cancelAt ≠ none) → (slotAt ≠ none → 0 < q.free) →
        ∃ reply, (q.call ⟨payload, id, cancelAt, none⟩ slotAt).2.1.reply? = some reply) ∧
      (∀ cancelAt abortAt slotAt reply,
        (q.call ⟨payload, id, cancelAt, abortAt⟩ slotAt).2.1.reply? = some reply →
          ∃ result, reply.Tells result) ∧
      ∀ ns, let o := (q.apply (.submit payload id)).play ns
        ∃ v, o.invocations[n]? = some v ∧ v.request = request ∧
          (v.stage = .ended .aborted → .act (.abort n) ∈ ns) ∧
          (v.stage ≠ .ended .aborted →
            (v.stage = .waiting → v.cancelled = true ∨ 0 < c.maxConcurrent.toNat) →
            ∃ m, Comes m (Comes n (Returned n)) o) ∧
          ∀ result, v.stage = .ended (.result result) →
            ∃ reply, (Answer.ended (.result result)).reply? = some reply ∧ reply.Tells result := by
  intro q n
  refine ⟨fun e he => ⟨rfl, ?_, fun cancelAt abortAt slotAt => ?_⟩, fun request hr => ⟨?_, ?_, ?_⟩⟩
  · simp only [apply, submit, he]
    rfl
  · simp only [call, submit, he]
    rfl
  · intro cancelAt slotAt hc hf
    exact reply_of_stay q ⟨payload, id, cancelAt, none⟩ slotAt hr rfl hc hf
  · intro cancelAt abortAt slotAt reply hreply
    exact tells_of_call q ⟨payload, id, cancelAt, abortAt⟩ slotAt hr hreply
  · intro ns o
    have hstart : (q.apply (.submit payload id)).invocations[n]? = some (.start request id) :=
      getElem?_submit hr
    have hplay : o = p.play (ms ++ .act (.submit payload id) :: ns) := by
      rw [play_append]
      rfl
    obtain ⟨v, hv, hrequest⟩ : ∃ v, o.invocations[n]? = some v ∧ v.request = request :=
      play_invocation (P := fun w _ => w.request = request) hstart rfl
        fun _ hf hw => (request_of_fate hf).trans hw
    have hfresh : (Invocation.start request id).stage ≠ .ended .aborted := by
      intro he
      cases he
    refine ⟨v, hv, hrequest, abort_of_aborted hstart hfresh hv, fun ha hs => ?_, ?_⟩
    · rw [hplay]
      exact comes_returned hp (hplay ▸ hv) ha hs
    · intro result hs
      exact ⟨_, rfl, rfl, status_of_result hr hv hs⟩

theorem ofPayload_python : Request.ofPayload (.ofCode "python" "x") =
    .ok ⟨.python, "x", .emptyObject, defaultHandler, none⟩ := by
  have hlanguage : Language.ofName? "python" = some .python := by cbv
  have hname : isIdentifier defaultHandler = true := by decide
  simp only [Request.ofPayload, Payload.ofCode, hlanguage, Option.getD_none, hname]
  rfl

/-- An accepted payload in a language whose command is empty. -/
theorem answered_unresolved :
    let c : Config := { Config.empty with interpreters := Dictionary.empty.insert "python" [] }
    let h : Host := ⟨⟨[]⟩, [], .empty⟩
    let p : Pool := ⟨c, h, 16, [], [], []⟩
    let payload : Payload := .ofCode "python" "x"
    let o := (p.apply (.submit payload ⟨0⟩)).play [.act (.acquire 0)]
    ∃ v result, o.invocations[0]? = some v ∧ v.stage = .ended (.result result) ∧
      (Answer.ended (.result result)).reply? =
        some ⟨true, some (.internalError Interpreter.Error.emptyCommand.text), none, some []⟩ ∧
      result.response.statusCode = 500 := by
  intro c h p payload o
  have hrequest : Request.ofPayload payload = .ok _ := ofPayload_python
  have hcommand : Interpreter.resolve h .python (c.commandFor .python) = .error .emptyCommand :=
    rfl
  have hstage : o.stage? 0 =
      some (.ended (.result (.failed Interpreter.Error.emptyCommand.text []))) := by
    simp [o, p, stage?, play, move, apply, submit, hrequest, Except.map, onInvocation, acquire,
      resolve, Invocation.start, note, hcommand, leave, enter, update]
  have hpool : ofConfig? c h = some p := rfl
  obtain ⟨v, hv, -, -, -, hreply⟩ :=
    ((answered hpool [] payload ⟨0⟩).2 _ hrequest).2.2 [.act (.acquire 0)]
  have hended : v.stage = .ended (.result (.failed Interpreter.Error.emptyCommand.text [])) := by
    change o.invocations[0]? = some v at hv
    rw [stage?, hv] at hstage
    exact Option.some.inj hstage
  obtain ⟨reply, htold, rfl, hstatus⟩ := hreply _ hended
  exact ⟨v, _, hv, hended, htold, hstatus (by decide)⟩

end Pool

end Invoker

end HandlerHost
