import HandlerHost.Proofs.Child.Announced
import HandlerHost.Proofs.Execution.Classification
import HandlerHost.Proofs.Output.Lines

/-!
What a runner prints last is the result, from the bytes of the stream to the response. Nothing a
handler printed before can hide or change it: the newline before the start sentinel ends any line
that was open, and the start sentinel ends any capture.
-/
namespace HandlerHost.Execution

open Json (Value)
open Output
open Child (Exit Scene Termination Write)
open Text.Utf8 (encode)

variable {front back : List UInt8} {chunks : List (List UInt8)} {text : String} {v : Value}
  {t : Termination} {e : Exit} {lines : List Line}

/-- The bytes that a runner prints for a result. -/
def resultBytes (text : String) : List UInt8 :=
  [newline] ++ (encode resultStart ++ [newline]) ++ (encode text ++ [newline]) ++
    (encode resultEnd ++ [newline])

/-- No sentinel is a JSON text. -/
theorem sentinelFree_of_read (h : Value.read text = .ok v) : SentinelFree [text] := by
  have hne : ∀ s, (Value.read s).toOption = none → s ≠ text := by
    rintro s hs rfl
    rw [h] at hs
    cases hs
  simp only [SentinelFree, List.mem_singleton]
  exact ⟨hne resultStart (by decide), hne resultEnd (by decide)⟩

/-- A result makes lines of its own, whatever stands around it. -/
theorem forwarded_framed :
    forwarded [front ++ resultBytes text ++ back] =
      forwarded [front ++ [newline]] ++ [resultStart] ++ forwarded [encode text ++ [newline]] ++
        [resultEnd] ++ forwarded [back] := by
  have hs : forwarded [encode resultStart ++ [newline]] = [resultStart] :=
    forwarded_encode (by decide) (by decide) (by decide)
  have he : forwarded [encode resultEnd ++ [newline]] = [resultEnd] :=
    forwarded_encode (by decide) (by decide) (by decide)
  calc
    forwarded [front ++ resultBytes text ++ back]
      = forwarded [front ++ [newline] ++ (encode resultStart ++ [newline] ++
          (encode text ++ [newline] ++ (encode resultEnd ++ [newline] ++ back)))] := by
        simp [resultBytes]
    _ = forwarded [front ++ [newline]] ++ (forwarded [encode resultStart ++ [newline]] ++
          (forwarded [encode text ++ [newline]] ++
            (forwarded [encode resultEnd ++ [newline]] ++ forwarded [back]))) := by
        rw [forwarded_newline, forwarded_newline, forwarded_newline, forwarded_newline]
    _ = _ := by
        rw [hs, he]
        simp

/-- The three lines of a result arrive as such, whatever stands around them. -/
theorem forwarded_resultBytes (hn : '\n' ∉ text.toList) (hr : text.toList.getLast? ≠ some '\r')
    (hl : text.utf8ByteSize ≤ maxLineBytes) :
    forwarded [front ++ resultBytes text ++ back] =
      forwarded [front ++ [newline]] ++ [resultStart] ++ [text] ++ [resultEnd] ++
        forwarded [back] := by
  rw [forwarded_framed, forwarded_encode hn hr hl]

/-- The JSON text that a runner prints between its sentinels is the result: after any bytes and
before any that bring no other start sentinel, however the stream is cut into chunks and whatever
lines of standard error come in between. -/
theorem trailing_result_captured (hv : Value.read text = .ok v) (hn : '\n' ∉ text.toList)
    (hr : text.toList.getLast? ≠ some '\r') (hl : text.utf8ByteSize ≤ maxLineBytes)
    (hb : resultStart ∉ forwarded [back])
    (hc : chunks.flatten = front ++ resultBytes text ++ back)
    (hs : stdoutTexts lines = forwarded chunks) (ht : t = .exited e ∨ t = .exitedPastDeadline e)
    (logLines timeoutMs : Nat) :
    (decode (limits logLines) lines).result = some text ∧
    (ofLines t lines logLines timeoutMs).provenance = .captured ∧
    (ofLines t lines logLines timeoutMs).response = .ofValue v := by
  have ha : Accepts maxResultBytes (stdoutTexts lines) [text] := by
    rw [hs, forwarded_flatten, hc, forwarded_resultBytes hn hr hl]
    refine ⟨_, _, rfl, sentinelFree_of_read hv, ?_, hb⟩
    have hlimit : maxLineBytes + 1 ≤ maxResultBytes := by decide
    simp only [totalCost, List.map_cons, List.map_nil, List.sum_cons, List.sum_nil, cost]
    omega
  have hd : (decode (limits logLines) lines).result = some text :=
    result_eq_some_iff.mpr ⟨[text], ha, rfl⟩
  have hx : t.exit? = some e := by
    rcases ht with rfl | rfl
    · rfl
    · rfl
  obtain ⟨hp, hresp⟩ := ofLines_of_exit hx
  exact ⟨hd, by rw [hp, emitted_of_read hd hv], by rw [hresp, emitted_of_read hd hv]⟩

/-- A handler opens a capture and leaves its last line open, a line comes on standard error, and
the stream is cut inside the start sentinel of the result. -/
theorem trailing_result_captured_after_spoof :
    let printed := encode resultStart ++ [newline, 200] ++ resultBytes "[]" ++ [97]
    let writes : List Write := [⟨0, .stdout, printed.take 30⟩,
      ⟨1, .stderr, encode "warning" ++ [newline]⟩, ⟨2, .stdout, printed.drop 30⟩]
    let lines := ((Scene.start fun _ => false).writeAll writes).close.announced
    (decode (limits 0) lines).result = some "[]" ∧
    (ofLines (.exitedPastDeadline (.code 0)) lines 0 50).provenance = .captured ∧
    (ofLines (.exitedPastDeadline (.code 0)) lines 0 50).response = .ofValue (.array []) := by
  intro printed writes lines
  have hw : writes.filterMap Write.stdout? = [printed.take 30, printed.drop 30] := rfl
  have hc : (writes.filterMap Write.stdout?).flatten =
      encode resultStart ++ [newline, 200] ++ resultBytes "[]" ++ [97] := by
    simp [hw, printed]
  have hs : stdoutTexts lines = forwarded (writes.filterMap Write.stdout?) :=
    Scene.stdoutTexts_announced _ writes
  exact trailing_result_captured rfl (by decide) (by decide) (by decide) (by decide) hc hs
    (.inr rfl) 0 50

end HandlerHost.Execution
