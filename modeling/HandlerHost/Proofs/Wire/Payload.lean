import HandlerHost.Cli.Run
import HandlerHost.Proofs.Json.Denoted
import HandlerHost.Proofs.Json.RoundTrip
import HandlerHost.Proofs.Wire.Reply
import Mathlib

/-!
A payload is decoded from its own text. A request in that text is carried out like the command line
that the payload was built from.
-/
namespace HandlerHost

open Json (Value Decoder Shape)
open Json.Value (Canonical Exact Integral)

variable {p : Payload}

namespace Payload

theorem integral_ofOption {α : Type} {f : α → Value} {x : Option α} (h : ∀ a, Integral (f a)) :
    Integral (.ofOption f x) := by
  cases x with
  | none => exact .null
  | some a => exact h a

theorem integral_toValue (h : Integral p.event) : Integral p.toValue := by
  refine .object trivial ?_
  intro m hm
  simp only [List.mem_cons, List.not_mem_nil, or_false] at hm
  rcases hm with rfl | rfl | rfl | rfl | rfl
  · exact .string
  · exact .string
  · exact h
  · exact integral_ofOption fun _ => .string
  · exact integral_ofOption fun t => Value.integral_ofNat t.toNat_lt

theorem depth_ofOption {α : Type} {f : α → Value} {x : Option α} {n : Nat}
    (h : ∀ a, (f a).depth ≤ n) : (Value.ofOption f x).depth ≤ n := by
  cases x with
  | none => exact Nat.zero_le n
  | some a => exact h a

theorem depth_toValue : p.toValue.depth ≤ p.event.depth + 1 := by
  apply Value.depth_object_le
  intro m hm
  simp only [List.mem_cons, List.not_mem_nil, or_false] at hm
  rcases hm with rfl | rfl | rfl | rfl | rfl
  · exact Nat.zero_le _
  · exact Nat.zero_le _
  · exact Nat.le_refl _
  · exact depth_ofOption fun _ => Nat.zero_le _
  · exact depth_ofOption fun _ => Nat.zero_le _

theorem reads_event {v : Value} (hv : v.ordered = p.event) : Value.decoder.Reads v p.event := by
  rw [← hv]
  exact Decoder.reads_value

theorem reads_handler : (Decoder.option .string).Reads (.ofOption .string p.handler) p.handler :=
  Decoder.reads_ofOption fun _ _ => ⟨by simp, Decoder.reads_string⟩

theorem reads_timeoutMs : (Decoder.option .word64).Reads
    (.ofOption (fun t => .ofNat t.toNat) p.timeoutMs) p.timeoutMs :=
  Decoder.reads_ofOption fun _ _ => ⟨by simp [Value.ofNat], Decoder.reads_word64⟩

/-- The members of a payload, in the order in which they are written, make the payload again. An
event of null is kept, and an absent handler or deadline is written as null. -/
theorem reads_toValue (hc : Canonical p.event) : decoder.Reads p.toValue p := by
  have hevent : Value.decoder.Reads p.event p.event := reads_event (Value.ordered_of_canonical hc)
  apply Shape.reads_object
  apply Shape.yields_cons rfl rfl (Decoder.reads_field Decoder.reads_string)
  apply Shape.yields_cons rfl rfl (Decoder.reads_field Decoder.reads_string)
  apply Shape.yields_cons rfl rfl (Decoder.reads_field hevent)
  apply Shape.yields_cons rfl rfl (Decoder.reads_field reads_handler)
  apply Shape.yields_cons rfl rfl (Decoder.reads_field reads_timeoutMs)
  exact Shape.yields_nil rfl

/-- An event stands inside the payload's own braces, so it may nest one bracket less deep. -/
theorem decode_compact (hc : Canonical p.event) (he : Exact p.event)
    (hd : p.event.depth ≤ 126) : Json.decode decoder p.toValue.compact = .ok p := by
  have hi : Integral p.toValue := integral_toValue (Value.integral_of_canonical hc he)
  have hn : p.toValue.depth ≤ Json.maxDepth := Nat.le_trans depth_toValue (Nat.succ_le_succ hd)
  exact (Json.decode_written (reads_toValue hc) hi hn).1

end Payload

namespace Cli

open Invoker (Pool)

variable {h : Host} {c : Config} {id : WorkspaceId} {source runtime : String}
  {event : Option EventSource} {handler : Option String} {timeoutMs : Option UInt64}

theorem canonical_of_readEvent {v : Value} (hr : readEvent h event = .ok v) : Canonical v := by
  have hread : ∀ (text message : String), (Value.read text).mapError (fun _ => message) = .ok v →
      Canonical v := by
    intro text message hm
    cases ht : Value.read text with
    | error e =>
      rw [ht] at hm
      cases hm
    | ok w =>
      rw [ht] at hm
      cases hm
      exact Value.canonical_of_read ht
  unfold readEvent at hr
  split at hr
  · cases hr
    exact .object List.Pairwise.nil (by simp)
  · exact hread _ _ hr
  · split at hr
    · cases hr
    · exact hread _ _ hr

/-- The event of a payload from the command line was read from a text, or is the empty object. -/
theorem canonical_of_buildPayload
    (hb : buildPayload h source runtime event handler timeoutMs = .ok p) : Canonical p.event := by
  simp only [buildPayload, bind, Except.bind] at hb
  split at hb
  · cases hb
  · split at hb
    · cases hb
    · rename_i hr
      cases hb
      exact canonical_of_readEvent hr

/-- The request path reads what the payload was written as. -/
theorem readRequest_compact (hp : Json.decode Payload.decoder p.toValue.compact = .ok p) :
    readRequest h none p.toValue.compact = .ok p := by
  simp only [readRequest, pure, Except.pure, bind, Except.bind, hp]
  rfl

theorem readRequest_file {path stdin : String}
    (hp : Json.decode Payload.decoder p.toValue.compact = .ok p)
    (hf : h.read path = .ok p.toValue.compact) : readRequest h (some path) stdin = .ok p := by
  simp only [readRequest, bind, Except.bind, hf, Except.mapError, hp]

/-- A payload survives its text on the wire, whatever its strings are, whether it names a handler
and a deadline or not, and whatever event without binary fractions it has, if that leaves room for
the payload's own braces. So a request in the text of a payload that a command line builds, on
standard input or in a file, is carried out like the command line; where there are slots, what is
printed is a reply that refuses the payload or tells its result. -/
theorem payload_round_trip :
    (∀ p : Payload, Canonical p.event → Exact p.event → p.event.depth ≤ 126 →
      Json.decode Payload.decoder p.toValue.compact = .ok p) ∧
    ∀ (h : Host) (source runtime : String) (event : Option EventSource) (handler : Option String)
      (timeoutMs : Option UInt64) (p : Payload),
      buildPayload h source runtime event handler timeoutMs = .ok p → Exact p.event →
      p.event.depth ≤ 126 →
      readRequest h none p.toValue.compact = .ok p ∧
      (∀ path stdin, h.read path = .ok p.toValue.compact →
        readRequest h (some path) stdin = .ok p) ∧
      ∀ c id stdin,
        perform h c stdin id (.invoke source runtime event handler timeoutMs) =
          runPayload h c p id ∧
        perform h c p.toValue.compact id (.request none) = runPayload h c p id ∧
        (∀ path, h.read path = .ok p.toValue.compact →
          perform h c stdin id (.request (some path)) = runPayload h c p id) ∧
        ∀ pool, Pool.ofConfig? c h = some pool → 0 < c.maxConcurrent.toNat →
          ∃ r, Printed p r (runPayload h c p id) := by
  refine ⟨fun p hc he hd => Payload.decode_compact hc he hd, ?_⟩
  intro h source runtime event handler timeoutMs p hb he hd
  have hp : Json.decode Payload.decoder p.toValue.compact = .ok p :=
    Payload.decode_compact (canonical_of_buildPayload hb) he hd
  have hstdin : readRequest h none p.toValue.compact = .ok p := readRequest_compact hp
  have hfile : ∀ path stdin, h.read path = .ok p.toValue.compact →
      readRequest h (some path) stdin = .ok p := fun _ _ hf => readRequest_file hp hf
  refine ⟨hstdin, hfile, ?_⟩
  intro c id stdin
  refine ⟨?_, ?_, ?_, fun pool => printed_runPayload⟩
  · simp only [perform, hb]
  · simp only [perform, hstdin]
  · intro path hf
    simp only [perform, hfile path stdin hf]

/-- A control character, a character beyond U+FFFF, an event of null and the greatest deadline; and
a command line with a source file, whose event has an array in an object. -/
theorem payload_round_trip_escaped :
    let p : Payload := ⟨"python", "print('\x01😀')", .null, none, some (-1)⟩
    let q : Payload := ⟨"python", "x", .object [("a", .array [.null])], some "main", some 5⟩
    let h : Host := ⟨⟨[(["f"], .file "x" false)]⟩, [], .empty⟩
    let event : EventSource := .inline q.event.compact
    Json.decode Payload.decoder p.toValue.compact = .ok p ∧
    perform h .empty q.toValue.compact ⟨0⟩ (.request none) =
      perform h .empty "" ⟨0⟩ (.invoke "f" "python" (some event) (some "main") (some 5)) ∧
    ∃ r, Printed q r (perform h .empty q.toValue.compact ⟨0⟩ (.request none)) := by
  intro p q h event
  have hexact : Exact q.event := by
    refine .object trivial ?_
    simp only [List.mem_singleton, forall_eq]
    exact .array (by simpa using .null)
  have hintegral : Integral q.event := by
    refine .object trivial ?_
    simp only [List.mem_singleton, forall_eq]
    exact .array (by simpa using .null)
  have hparts : Host.Path.parts "f" = ["f"] := by decide
  have hfile : h.files.resolve h.cwd "f" = .ok (.present ["f"] (.file "x" false)) := by
    rw [Host.FileSystem.resolve, hparts]
    cbv
  have hsource : readSource h "f" = .ok "x" := by
    rw [readSource, Host.read, Host.FileSystem.read, Host.FileSystem.stat, hfile]
    cbv
  have hevent : readEvent h (some event) = .ok q.event := by
    simp only [readEvent, event, Value.read_compact hintegral (by decide)]
    rfl
  have hbuild : buildPayload h "f" "python" (some event) (some "main") (some 5) = .ok q := by
    simp only [buildPayload, hsource, hevent]
    rfl
  obtain ⟨-, -, hrun⟩ := payload_round_trip.2 h "f" "python" (some event) (some "main") (some 5) q
    hbuild hexact (by decide)
  obtain ⟨hinvoke, hrequest, -, hprinted⟩ := hrun .empty ⟨0⟩ ""
  have hpool : Pool.ofConfig? .empty h = some ⟨.empty, h, 16, [], [], []⟩ := rfl
  refine ⟨payload_round_trip.1 p .null .null (by decide), hrequest.trans hinvoke.symm, ?_⟩
  rw [hrequest]
  exact hprinted _ hpool (by decide)

end Cli

end HandlerHost
