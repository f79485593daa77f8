import HandlerHost.Proofs.Wire.Payload
import HandlerHost.Proofs.Wire.Reply

/-!
Payloads as a caller writes them. An event, a handler and a deadline may be left out; without an
event the payload has an empty object.
-/
namespace HandlerHost.Payload

open Json (Value Decoder Shape)
open Json.Value (Canonical Exact Integral)
open Reply (member mem_member yields_member)

/-- The members that a caller writes. -/
structure Sent where
  runtime : String
  code : String
  event : Option Value
  handler : Option String
  timeoutMs : Option UInt64

namespace Sent

def toValue (s : Sent) : Value :=
  .object (("runtime", .string s.runtime) :: ("code", .string s.code) ::
    (member "event" id s.event ++ member "handler" .string s.handler ++
      member "timeoutMs" (fun t => .ofNat t.toNat) s.timeoutMs))

/-- The payload that is meant. -/
def payload (s : Sent) : Payload :=
  ⟨s.runtime, s.code, s.event.getD .emptyObject, s.handler, s.timeoutMs⟩

/-- An event as every text is read, with its keys once and in order, that has no binary fractions
and leaves room for the brackets around it. -/
structure Plain (v : Value) : Prop where
  canonical : Canonical v
  exact : Exact v
  shallow : v.depth ≤ 126

variable {s : Sent}

theorem mem_toValue {m : String × Value}
    (h : m ∈ ("runtime", Value.string s.runtime) :: ("code", .string s.code) ::
      (member "event" id s.event ++ member "handler" .string s.handler ++
        member "timeoutMs" (fun t => .ofNat t.toNat) s.timeoutMs)) :
    s.event = some m.2 ∨ (∃ x, m.2 = .string x) ∨ ∃ t : UInt64, m.2 = .ofNat t.toNat := by
  simp only [List.mem_cons, List.mem_append] at h
  rcases h with rfl | rfl | (h | h) | h
  · exact .inr (.inl ⟨_, rfl⟩)
  · exact .inr (.inl ⟨_, rfl⟩)
  · obtain ⟨v, hv, rfl⟩ := mem_member h
    exact .inl hv
  · obtain ⟨x, -, rfl⟩ := mem_member h
    exact .inr (.inl ⟨x, rfl⟩)
  · obtain ⟨t, -, rfl⟩ := mem_member h
    exact .inr (.inr ⟨t, rfl⟩)

theorem integral_toValue (h : ∀ v ∈ s.event, Plain v) : Integral s.toValue := by
  refine .object trivial ?_
  intro m hm
  rcases mem_toValue hm with hv | ⟨x, hx⟩ | ⟨t, ht⟩
  · exact Value.integral_of_canonical (h _ hv).canonical (h _ hv).exact
  · rw [hx]
    exact .string
  · rw [ht]
    exact Value.integral_ofNat t.toNat_lt

theorem depth_toValue (h : ∀ v ∈ s.event, Plain v) : s.toValue.depth ≤ 127 := by
  apply Value.depth_object_le
  intro m hm
  rcases mem_toValue hm with hv | ⟨x, hx⟩ | ⟨t, ht⟩
  · exact (h _ hv).shallow
  · rw [hx]
    exact Nat.zero_le _
  · rw [ht]
    exact Nat.zero_le _

theorem reads_toValue (h : ∀ v ∈ s.event, Plain v) : decoder.Reads s.toValue s.payload := by
  have hevent : ∀ v ∈ s.event, Value.decoder.Reads v v := by
    intro v hv
    have hr : Value.decoder.Reads v v.ordered := Decoder.reads_value
    rwa [Value.ordered_of_canonical (h v hv).canonical] at hr
  have hhandler : ∀ x : String, (Decoder.option .string).Reads (.string x) (some x) :=
    fun x => Decoder.reads_option_some (by simp) Decoder.reads_string
  have htimeout : ∀ t : UInt64, (Decoder.option .word64).Reads (.ofNat t.toNat) (some t) :=
    fun t => Decoder.reads_option_some (by simp [Value.ofNat]) Decoder.reads_word64
  obtain ⟨runtime, code, event, handler, timeoutMs⟩ := s
  apply Shape.reads_object
  apply Shape.yields_cons rfl rfl (Decoder.reads_field Decoder.reads_string)
  apply Shape.yields_cons rfl rfl (Decoder.reads_field Decoder.reads_string)
  rw [List.append_assoc, ← List.append_nil (member "timeoutMs" _ _)]
  apply yields_member rfl rfl fun v hv => Decoder.reads_field (hevent v hv)
  apply yields_member rfl (by cases event <;> rfl) fun x _ => Decoder.reads_field (hhandler x)
  apply yields_member rfl (by cases event <;> cases handler <;> rfl) fun t _ =>
    Decoder.reads_field (htimeout t)
  apply Shape.yields_nil
  cases event <;> cases handler <;> cases timeoutMs <;> rfl

/-- The payload that is meant is decoded from the text. -/
theorem decode_compact (h : ∀ v ∈ s.event, Plain v) :
    Json.decode decoder s.toValue.compact = .ok s.payload :=
  (Json.decode_written (reads_toValue h) (integral_toValue h) (depth_toValue h)).1

end Sent

end HandlerHost.Payload
