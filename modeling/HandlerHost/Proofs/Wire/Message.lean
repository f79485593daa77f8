import HandlerHost.Proofs.Wire.Reply

/-!
Error responses carry their message. It is escaped in the body, and the body is escaped once more in
the text of a reply. Reading undoes both, for every character, so a caller is told the message as it
was given.
-/
namespace HandlerHost

open Json (Value)

variable {r : Response} {reply : Reply} {status other : UInt16} {message told text : String}

namespace Response

/-- What the body of an error response says. -/
def complaint (message : String) : Value := .object [("error", .string message)]

/-- The message of a response whose body is an object with that as its only member. -/
def message? (r : Response) : Option String :=
  match Value.read r.body with
  | .ok (.object [(k, .string message)]) => if k = "error" then some message else none
  | _ => none

theorem message?_eq_some :
    r.message? = some message ↔ Value.read r.body = .ok (complaint message) := by
  unfold message? complaint
  split
  · rename_i k told hread
    rw [hread]
    split <;> simp_all
  · rename_i hread
    simp_all

theorem complaint_inj : complaint told = complaint message ↔ told = message := by
  simp [complaint]

theorem canonical_complaint : (complaint message).Canonical :=
  .object (List.pairwise_singleton _ _) (List.forall_mem_singleton.mpr .string)

theorem exact_complaint : (complaint message).Exact :=
  .object trivial (List.forall_mem_singleton.mpr .string)

theorem depth_complaint : (complaint message).depth ≤ 1 :=
  Value.depth_object_le (List.forall_mem_singleton.mpr (Nat.le_refl 0))

theorem read_body_error : Value.read (error status message).body = .ok (complaint message) :=
  Value.read_compact_of_canonical canonical_complaint exact_complaint
    (Nat.le_trans depth_complaint (by decide))

theorem message?_error : (error status message).message? = some message :=
  message?_eq_some.mpr read_body_error

/-- Error responses with one body have one message, whatever their status. -/
theorem body_error_inj :
    (error other told).body = (error status message).body ↔ told = message := by
  constructor
  · intro h
    have ht : Value.read (error other told).body = .ok (complaint told) := read_body_error
    rw [h, read_body_error] at ht
    exact (complaint_inj.mp (Except.ok.inj ht)).symm
  · rintro rfl
    rfl

end Response

namespace Reply

/-- The message of the response in a reply's text. -/
def messageIn? (text : String) : Option String :=
  match Json.decode decoder text with
  | .ok reply => reply.response.bind Response.message?
  | .error _ => none

theorem messageIn?_of_decode (h : Json.decode decoder text = .ok reply) :
    messageIn? text = reply.response.bind Response.message? := by
  rw [messageIn?, h]

/-- A reply is decoded from each of its texts. -/
theorem decode_toValue (reply : Reply) :
    Json.decode decoder reply.toValue.compact = .ok reply ∧
      Json.decode decoder reply.toValue.pretty = .ok reply ∧
      Json.decode decoder (reply.toValue.pretty ++ "\n") = .ok reply :=
  Json.decode_written reads_toValue integral_toValue (Nat.le_trans depth_toValue (by decide))

end Reply

/-- An error response says its message and nothing else: its body is read as an object with the
message as the only member, so other messages have other bodies. Coercing its value, with the
members as they are written or in key order, gives it back. From the text of any reply with it,
on one line, indented, or printed as a line, the message is recovered by reading the body that is
decoded; and the message of a refusal is decoded from its text as it stands. -/
theorem Response.message_recovered (status : UInt16) (message : String) :
    Value.read (error status message).body = .ok (.object [("error", .string message)]) ∧
    (∀ other told, (error other told).body = (error status message).body ↔ told = message) ∧
    (ofValue (error status message).toValue = error status message ∧
      ofValue (error status message).toValue.ordered = error status message) ∧
    (∀ ok refused logs, let reply : Reply := ⟨ok, some (error status message), refused, logs⟩
      Reply.messageIn? reply.toValue.compact = some message ∧
      Reply.messageIn? reply.toValue.pretty = some message ∧
      Reply.messageIn? (reply.toValue.pretty ++ "\n") = some message) ∧
    Json.decode Reply.decoder (Reply.refusal message).toValue.compact = .ok (.refusal message) := by
  refine ⟨read_body_error, fun other told => body_error_inj, ⟨ofValue_toValue, ofValue_ordered⟩, ?_,
    (Reply.decode_toValue _).1⟩
  intro ok refused logs reply
  have hmessage : reply.response.bind Response.message? = some message := message?_error
  obtain ⟨hcompact, hpretty, hline⟩ := Reply.decode_toValue reply
  rw [Reply.messageIn?_of_decode hcompact, Reply.messageIn?_of_decode hpretty,
    Reply.messageIn?_of_decode hline]
  exact ⟨hmessage, hmessage, hmessage⟩

end HandlerHost
