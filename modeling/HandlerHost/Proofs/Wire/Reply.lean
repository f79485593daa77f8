import HandlerHost.Cli.Run
import HandlerHost.Proofs.Invoker.Answers
import HandlerHost.Proofs.Wire.Response
import Mathlib

/-!
A reply is decoded from its own texts, with its response, its message and its logs present or left
out. So the text that a call prints is one document from which its reply is told, and so does the
exit status tell whether the call was accepted.
-/
namespace HandlerHost

open Json (Value Decoder Shape)
open Json.Value (Integral)
open Text (Dictionary)

variable {r : Reply}

namespace Reply

section Member

variable {α β δ : Type} {s : Shape δ β} {draft : δ} {field : Json.Field δ} {k : String}
  {f : α → Value} {store : α → δ → δ} {ms : List (String × Value)} {a : Option α} {b : β}

/-- A member that is left out leaves the draft as it is. -/
theorem yields_member (hk : (s.fields.find? fun f => f.name == k) = some field)
    (hg : field.given draft = false) (hr : ∀ x ∈ a, field.read.Reads (f x) (store x))
    (h : s.Yields (a.elim draft fun x => store x draft) ms b) :
    s.Yields draft (member k f a ++ ms) b := by
  cases a with
  | none => exact h
  | some x => exact Shape.yields_cons hk hg (hr x rfl) h

theorem mem_member {m : String × Value} (h : m ∈ member k f a) :
    ∃ x, a = some x ∧ m = (k, f x) := by
  cases a with
  | none => cases h
  | some x => exact ⟨x, rfl, List.mem_singleton.mp h⟩

end Member

/-- Every member of a reply's value is its flag, a response, a message or logs. -/
theorem mem_toValue {m : String × Value}
    (h : m ∈ ("ok", .bool r.ok) :: member "response" Response.toValue r.response ++
      member "error" .string r.error ++ member "logs" .strings r.logs) :
    m.2 = .bool r.ok ∨ (∃ x : Response, m.2 = x.toValue) ∨ (∃ s, m.2 = .string s) ∨
      ∃ ss, m.2 = .strings ss := by
  simp only [List.cons_append, List.mem_cons, List.mem_append] at h
  rcases h with rfl | (h | h) | h
  · exact .inl rfl
  · obtain ⟨x, -, rfl⟩ := mem_member h
    exact .inr (.inl ⟨x, rfl⟩)
  · obtain ⟨s, -, rfl⟩ := mem_member h
    exact .inr (.inr (.inl ⟨s, rfl⟩))
  · obtain ⟨ss, -, rfl⟩ := mem_member h
    exact .inr (.inr (.inr ⟨ss, rfl⟩))

theorem integral_strings {ss : List String} : Integral (.strings ss) := by
  refine .array ?_
  intro v hv
  obtain ⟨s, -, rfl⟩ := List.mem_map.mp hv
  exact .string

theorem integral_toValue : Integral r.toValue := by
  refine .object trivial ?_
  intro m hm
  rcases mem_toValue hm with h | ⟨x, h⟩ | ⟨s, h⟩ | ⟨ss, h⟩
  · rw [h]
    exact .bool
  · rw [h]
    exact Response.integral_toValue
  · rw [h]
    exact .string
  · rw [h]
    exact integral_strings

theorem depth_strings {ss : List String} : (Value.strings ss).depth ≤ 1 := by
  apply Value.depth_array_le
  intro v hv
  obtain ⟨s, -, rfl⟩ := List.mem_map.mp hv
  exact Nat.le_refl 0

theorem depth_toValue : r.toValue.depth ≤ 3 := by
  apply Value.depth_object_le
  intro m hm
  rcases mem_toValue hm with h | ⟨x, h⟩ | ⟨s, h⟩ | ⟨ss, h⟩
  · rw [h]
    exact Nat.zero_le 2
  · rw [h]
    exact Response.depth_toValue
  · rw [h]
    exact Nat.zero_le 2
  · rw [h]
    exact Nat.le_succ_of_le depth_strings

theorem reads_toValue : decoder.Reads r.toValue r := by
  have hresponse : ∀ x : Response, (Decoder.option Response.decoder).Reads x.toValue (some x) :=
    fun x => Decoder.reads_option_some (by simp [Response.toValue]) Response.reads_toValue
  have herror : ∀ s : String, (Decoder.option .string).Reads (.string s) (some s) :=
    fun s => Decoder.reads_option_some (by simp) Decoder.reads_string
  have hlogs : ∀ ss : List String, (Decoder.option (.list .string)).Reads (.strings ss) (some ss) :=
    fun ss => Decoder.reads_option_some (by simp)
      (Decoder.reads_list fun _ _ => Decoder.reads_string)
  obtain ⟨ok, response, error, logs⟩ := r
  apply Shape.reads_object
  rw [List.cons_append, List.cons_append, List.append_assoc, ← List.append_nil (member "logs" _ _)]
  apply Shape.yields_cons rfl rfl (Decoder.reads_field Decoder.reads_bool)
  apply yields_member rfl rfl fun x _ => Decoder.reads_field (hresponse x)
  apply yields_member rfl (by cases response <;> rfl) fun s _ => Decoder.reads_field (herror s)
  apply yields_member rfl (by cases response <;> cases error <;> rfl) fun ss _ =>
    Decoder.reads_field (hlogs ss)
  apply Shape.yields_nil
  cases response <;> cases error <;> cases logs <;> rfl

end Reply

namespace Cli

open Invoker (Pool Answer)

variable {h : Host} {c : Config} {payload : Payload} {id : WorkspaceId} {p : Pool} {answer : Answer}
  {interruptAt : Option Nat}

/-- A call with a faulty payload is refused, whether or not a slot is free. -/
theorem together_refused {call : Invoker.Call} {e : Refusal}
    (h : Request.ofPayload call.payload = .error e) : (p.together [call]).2 = [.refused e] := by
  have hs : p.submit call.payload call.id = .error e := by
    rw [Pool.submit, h]
    rfl
  simp only [Pool.together, Pool.callAll, Pool.call, hs]

/-- What is printed of a call that is answered. -/
theorem runPayload_answered (hp : Pool.ofConfig? c h = some p)
    (ha : (p.together [⟨payload, id, interruptAt, none⟩]).2 = [answer])
    (hr : answer.reply? = some r) :
    (runPayload h c payload id interruptAt).stdout = r.toValue.pretty ++ "\n" ∧
      ((runPayload h c payload id interruptAt).exitCode = 0 ↔ r.ok = true) ∧
      (runPayload h c payload id interruptAt).failure = none := by
  cases hq : p.together [⟨payload, id, interruptAt, none⟩] with
  | mk q answers =>
    rw [hq] at ha
    subst ha
    rw [runPayload, hp]
    simp only [hq, hr, Option.getD_some, true_and, and_true]
    cases r.ok <;> decide

/-- A call by itself finds a slot free at once. -/
theorem together_free {call : Invoker.Call} (hf : 0 < p.free) :
    (p.together [call]).2 = [(p.call call (some 0)).2.1] := by
  have hslots : min p.free [call].length = 1 := by
    rw [List.length_singleton]
    omega
  rw [Pool.together, hslots]
  rfl

/-- What a run of a payload leaves behind: the text of one reply, and a status of zero exactly if
the payload was accepted. -/
structure Printed (payload : Payload) (r : Reply) (o : Outcome) : Prop where
  stdout : o.stdout = r.toValue.pretty ++ "\n"
  exitCode : o.exitCode = 0 ↔ r.ok = true
  failure : o.failure = none
  refused : ∀ e, Request.ofPayload payload = .error e → r = .refusal e.text
  told : ∀ request, Request.ofPayload payload = .ok request → ∃ result, r.Tells result

/-- With slots, every run of a payload prints a reply. -/
theorem printed_runPayload (hp : Pool.ofConfig? c h = some p) (hc : 0 < c.maxConcurrent.toNat) :
    ∃ r, Printed payload r (runPayload h c payload id interruptAt) := by
  have hfree : 0 < p.free := by
    rw [Pool.eq_of_ofConfig? hp]
    exact hc
  let call : Invoker.Call := ⟨payload, id, interruptAt, none⟩
  have hone : (p.together [call]).2 = [(p.call call (some 0)).2.1] := together_free hfree
  cases hr : Request.ofPayload payload with
  | error e =>
    obtain ⟨hout, hexit, hfailure⟩ := runPayload_answered hp (together_refused hr) rfl
    refine ⟨_, hout, hexit, hfailure, fun e' he => ?_, fun request hok => ?_⟩
    · cases hr.symm.trans he
      rfl
    · cases hr.symm.trans hok
  | ok request =>
    obtain ⟨r, hreply⟩ := p.reply_of_stay call (some 0) hr rfl nofun fun _ => hfree
    obtain ⟨hout, hexit, hfailure⟩ := runPayload_answered hp hone hreply
    refine ⟨r, hout, hexit, hfailure, fun e he => ?_, fun _ _ => ?_⟩
    · cases hr.symm.trans he
    · exact p.tells_of_call call (some 0) hr hreply

/-- A reply survives its text, written compactly or on several lines, whatever its flag, its status,
its headers and its strings are and whichever of its parts are there. So what a call prints is one
document, the reply of the invoker is decoded from it, and the status is zero exactly if that
reply says that the call was accepted. It may have been interrupted. -/
theorem reply_round_trip :
    (∀ r : Reply, Json.decode Reply.decoder r.toValue.compact = .ok r ∧
      Json.decode Reply.decoder r.toValue.pretty = .ok r) ∧
    ∀ (h : Host) (c : Config) (payload : Payload) (id : WorkspaceId) (interruptAt : Option Nat)
      (p : Pool) (answer : Answer) (r : Reply), Pool.ofConfig? c h = some p →
      (p.together [⟨payload, id, interruptAt, none⟩]).2 = [answer] → answer.reply? = some r →
      (∃ v, Value.read (runPayload h c payload id interruptAt).stdout = .ok v) ∧
      Json.decode Reply.decoder (runPayload h c payload id interruptAt).stdout = .ok r ∧
      ((runPayload h c payload id interruptAt).exitCode = 0 ↔ r.ok = true) ∧
      (runPayload h c payload id interruptAt).failure = none := by
  have hdepth : ∀ r : Reply, r.toValue.depth ≤ Json.maxDepth :=
    fun r => Nat.le_trans Reply.depth_toValue (by decide)
  have hdecode := fun r : Reply =>
    Json.decode_written Reply.reads_toValue Reply.integral_toValue (hdepth r)
  have hread := fun r : Reply =>
    Json.decode_written Json.Decoder.reads_value Reply.integral_toValue (hdepth r)
  refine ⟨fun r => ⟨(hdecode r).1, (hdecode r).2.1⟩, ?_⟩
  intro h c payload id interruptAt p answer r hp ha hr
  obtain ⟨hout, hexit, hfailure⟩ := runPayload_answered hp ha hr
  rw [hout]
  exact ⟨⟨_, (hread r).2.2⟩, (hdecode r).2.2, hexit, hfailure⟩

/-- A payload without code is refused. One with code is accepted, though the command that is
configured for its language is empty and so nothing is started. -/
theorem reply_round_trip_refused :
    let h : Host := ⟨⟨[]⟩, [], .empty⟩
    let c : Config := { Config.empty with interpreters := Dictionary.empty.insert "python" [] }
    let failed := Reply.ofResult (.failed Interpreter.Error.emptyCommand.text [])
    let refused := runPayload h c ⟨"python", "", .null, none, none⟩ ⟨0⟩
    let accepted := runPayload h c ⟨"python", "x", .null, none, none⟩ ⟨0⟩
    Json.decode Reply.decoder refused.stdout = .ok (.refusal "Code must not be empty") ∧
      refused.exitCode ≠ 0 ∧
      Json.decode Reply.decoder accepted.stdout = .ok failed ∧ accepted.exitCode = 0 := by
  intro h c failed refused accepted
  have hpool : Pool.ofConfig? c h = some ⟨c, h, 16, [], [], []⟩ := rfl
  have hlanguage : Language.ofName? "python" = some .python := by cbv
  have hrefusal : Request.ofPayload ⟨"python", "", .null, none, none⟩ = .error .emptyCode := by
    simp only [Request.ofPayload, hlanguage]
    rfl
  have hrequest : Request.ofPayload ⟨"python", "x", .null, none, none⟩ =
      .ok ⟨.python, "x", .object [], "handler", none⟩ := by
    have hname : isIdentifier defaultHandler = true := by decide
    simp only [Request.ofPayload, hlanguage, Option.getD_none, hname]
    rfl
  have hcommand : Interpreter.resolve h .python (c.commandFor .python) = .error .emptyCommand :=
    rfl
  have haccepted : (Pool.together ⟨c, h, 16, [], [], []⟩
      [⟨⟨"python", "x", .null, none, none⟩, ⟨0⟩, none, none⟩]).2 =
      [.ended (.result (.failed Interpreter.Error.emptyCommand.text []))] := by
    simp [Pool.together, Pool.callAll, Pool.call, Pool.submit, hrequest, Invoker.Call.wait,
      Invoker.comesBy, Pool.runFrom, Pool.apply, Pool.onInvocation, Pool.acquire, Pool.resolve,
      Except.map, Invoker.Invocation.start, Pool.note, hcommand, Pool.leave, Pool.enter,
      Pool.update, Pool.settleAll, Pool.run, Pool.carryOut, Pool.maxOperations, Pool.watchFrom,
      Invoker.Invocation.ending?]
  obtain ⟨-, hdecode, hexit, -⟩ :=
    reply_round_trip.2 h c _ ⟨0⟩ none _ _ _ hpool (together_refused hrefusal) rfl
  obtain ⟨-, hdecode', hexit', -⟩ := reply_round_trip.2 h c _ ⟨0⟩ none _ _ _ hpool haccepted rfl
  exact ⟨hdecode, fun hz => Bool.noConfusion (hexit.mp hz), hdecode', hexit'.mpr rfl⟩

end Cli

end HandlerHost
