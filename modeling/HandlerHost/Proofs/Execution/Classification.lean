import HandlerHost.Execution
import HandlerHost.Proofs.Output.Reading

/-!
How a run is classified. The end of the process alone decides the outcome; where it lets the
output speak, the grammar decides between a captured, a missing and a malformed result.
-/
namespace HandlerHost.Execution

open Json (Value)
open Output (Decoded Line decode stdoutTexts Overflows)
open Child (Exit Termination)

variable {d : Decoded} {t : Termination} {e : Exit} {v : Value} {text : String}
  {lines : List Line} {logs : List String} {logLines timeoutMs : Nat}

theorem emitted_of_read (hr : d.result = some text) (hv : Value.read text = .ok v) :
    emitted d = ⟨v, .captured, []⟩ := by
  simp [emitted, hr, hv]

theorem emitted_of_read_error {error : Json.Error} (hr : d.result = some text)
    (he : Value.read text = .error error) :
    (emitted d).value = .emptyObject ∧ (emitted d).provenance = .malformed := by
  simp [emitted, hr, he]

theorem emitted_of_none (hr : d.result = none) :
    (emitted d).value = .emptyObject ∧
      (emitted d).provenance = if d.oversized then .malformed else .missing := by
  cases ho : d.oversized <;> simp [emitted, standIn, hr, ho]

/-- What is emitted, by what was kept and whether it can be read. -/
theorem emitted_cases (d : Decoded) :
    (∃ text v, d.result = some text ∧ Value.read text = .ok v ∧ emitted d = ⟨v, .captured, []⟩) ∨
    (∃ text error, d.result = some text ∧ Value.read text = .error error ∧
      (emitted d).value = .emptyObject ∧ (emitted d).provenance = .malformed) ∨
    (d.result = none ∧ (emitted d).value = .emptyObject ∧
      (emitted d).provenance = if d.oversized then .malformed else .missing) := by
  cases hr : d.result with
  | none => exact .inr (.inr ⟨rfl, emitted_of_none hr⟩)
  | some text =>
    cases hv : Value.read text with
    | ok v => exact .inl ⟨text, v, rfl, hv, emitted_of_read hr hv⟩
    | error error => exact .inr (.inl ⟨text, error, rfl, hv, emitted_of_read_error hr hv⟩)

theorem captured_iff :
    (emitted d).provenance = .captured ↔
      ∃ text v, d.result = some text ∧ Value.read text = .ok v := by
  constructor
  · intro hp
    rcases emitted_cases d with ⟨text, v, hr, hv, -⟩ | ⟨_, _, -, -, -, hm⟩ | ⟨-, -, hm⟩
    · exact ⟨text, v, hr, hv⟩
    · simp [hm] at hp
    · rw [hm] at hp
      split at hp <;> contradiction
  · rintro ⟨text, v, hr, hv⟩
    rw [emitted_of_read hr hv]

theorem missing_iff :
    (emitted d).provenance = .missing ↔ d.result = none ∧ d.oversized = false := by
  constructor
  · intro hp
    rcases emitted_cases d with ⟨_, _, -, -, he⟩ | ⟨_, _, -, -, -, hm⟩ | ⟨hr, -, hm⟩
    · simp [he] at hp
    · simp [hm] at hp
    · rw [hm] at hp
      refine ⟨hr, ?_⟩
      by_contra ho
      simp [ho] at hp
  · rintro ⟨hr, ho⟩
    rw [(emitted_of_none hr).2, ho]
    rfl

theorem malformed_iff :
    (emitted d).provenance = .malformed ↔
      (d.result = none ∧ d.oversized = true) ∨
      ∃ text error, d.result = some text ∧ Value.read text = .error error := by
  constructor
  · intro hp
    rcases emitted_cases d with ⟨_, _, -, -, he⟩ | ⟨text, error, hr, he, -⟩ | ⟨hr, -, hm⟩
    · simp [he] at hp
    · exact .inr ⟨text, error, hr, he⟩
    · rw [hm] at hp
      refine .inl ⟨hr, ?_⟩
      by_contra ho
      simp [ho] at hp
  · rintro (⟨hr, ho⟩ | ⟨text, error, hr, he⟩)
    · rw [(emitted_of_none hr).2, ho]
      rfl
    · exact (emitted_of_read_error hr he).2

theorem emitted_ne_synthetic : (emitted d).provenance ≠ .synthetic := by
  rcases emitted_cases d with ⟨_, _, -, -, he⟩ | ⟨_, _, -, -, -, hm⟩ | ⟨-, -, hm⟩
  · simp [he]
  · simp [hm]
  · rw [hm]
    split <;> simp

/-- A stand-in is an empty object, and that makes the default response. -/
theorem ofValue_emitted_of_fallback (h : (emitted d).provenance.isFallback = true) :
    Response.ofValue (emitted d).value = default := by
  have hd : Response.ofValue .emptyObject = default := rfl
  rcases emitted_cases d with ⟨_, _, -, -, he⟩ | ⟨_, _, -, -, hv, -⟩ | ⟨-, hv, -⟩
  · simp [he, Provenance.isFallback] at h
  · rw [hv, hd]
  · rw [hv, hd]

/-- A run is completed when its process ended by itself, in time or not. -/
theorem finalize_of_exit (h : t.exit? = some e) :
    ∃ logs, finalize t d timeoutMs = completed e d logs := by
  cases t with
  | exited f =>
    obtain rfl : f = e := Option.some.inj h
    exact ⟨_, rfl⟩
  | exitedPastDeadline f =>
    obtain rfl : f = e := Option.some.inj h
    exact ⟨_, rfl⟩
  | timedOut => simp [Termination.exit?] at h
  | cancelled => simp [Termination.exit?] at h

theorem ofLines_of_exit (h : t.exit? = some e) :
    (ofLines t lines logLines timeoutMs).provenance =
      (emitted (decode (limits logLines) lines)).provenance ∧
    (ofLines t lines logLines timeoutMs).response =
      .ofValue (emitted (decode (limits logLines) lines)).value := by
  obtain ⟨logs, hf⟩ := finalize_of_exit h
  rw [ofLines, hf]
  exact ⟨rfl, rfl⟩

theorem outcome_completed_iff :
    (ofLines t lines logLines timeoutMs).outcome = .completed ↔
      ∃ e, t = .exited e ∨ t = .exitedPastDeadline e := by
  cases t <;> simp [ofLines, finalize, completed, timedOut, Result.cancelled]

theorem outcome_timedOut_iff :
    (ofLines t lines logLines timeoutMs).outcome = .timedOut ↔ t = .timedOut := by
  cases t <;> simp [ofLines, finalize, completed, timedOut, Result.cancelled]

theorem outcome_cancelled_iff :
    (ofLines t lines logLines timeoutMs).outcome = .cancelled ↔ t = .cancelled := by
  cases t <;> simp [ofLines, finalize, completed, timedOut, Result.cancelled]

theorem ofLines_exitCode :
    (ofLines t lines logLines timeoutMs).exitCode =
      (t.exit?.bind Exit.code?).map fun n => (n : Int) := by
  cases t <;> rfl

theorem exit_of_completed (h : (ofLines t lines logLines timeoutMs).outcome = .completed) :
    ∃ e, t.exit? = some e := by
  obtain ⟨e, rfl | rfl⟩ := outcome_completed_iff.mp h
  · exact ⟨e, rfl⟩
  · exact ⟨e, rfl⟩

theorem synthetic_of_no_exit (h : t.exit? = none) :
    (ofLines t lines logLines timeoutMs).provenance = .synthetic := by
  cases t with
  | exited e => simp [Termination.exit?] at h
  | exitedPastDeadline e => simp [Termination.exit?] at h
  | timedOut => rfl
  | cancelled => rfl

theorem response_of_fallback
    (h : (ofLines t lines logLines timeoutMs).provenance.isFallback = true) :
    (ofLines t lines logLines timeoutMs).response = default := by
  cases ht : t.exit? with
  | none => simp [synthetic_of_no_exit ht, Provenance.isFallback] at h
  | some e =>
    obtain ⟨hp, hr⟩ := ofLines_of_exit ht
    rw [hp] at h
    rw [hr, ofValue_emitted_of_fallback h]

/-- Where the process did not end by itself, nothing it printed shows in the response. -/
theorem response_eq_of_not_completed {others : List Line} {cap : Nat}
    (h : (ofLines t lines logLines timeoutMs).outcome ≠ .completed) :
    (ofLines t others cap timeoutMs).response = (ofLines t lines logLines timeoutMs).response := by
  cases t with
  | exited e => exact absurd rfl h
  | exitedPastDeadline e => exact absurd rfl h
  | timedOut => rfl
  | cancelled => rfl

/-- The end of a process decides the outcome and the exit code. Without an exit of its own the
response is the same whatever was printed; with one, the kept result is captured if it can be
read, missing if nothing was kept and no capture overflowed, and malformed otherwise. -/
theorem run_classified (t : Termination) (lines : List Line) (logLines timeoutMs : Nat) :
    let r := ofLines t lines logLines timeoutMs
    let d := decode (limits logLines) lines
    let overflows := Overflows Output.maxResultBytes (stdoutTexts lines)
    (r.outcome = .completed ↔ ∃ e, t = .exited e ∨ t = .exitedPastDeadline e) ∧
    (r.outcome = .timedOut ↔ t = .timedOut) ∧
    (r.outcome = .cancelled ↔ t = .cancelled) ∧
    r.exitCode = (t.exit?.bind Exit.code?).map (fun n => (n : Int)) ∧
    (r.outcome = .timedOut → r.provenance = .synthetic ∧
      r.response = .internalError ("Function timed out after " ++ timeoutMs.repr ++ " ms")) ∧
    (r.outcome = .cancelled → r.provenance = .synthetic ∧
      r.response = .internalError "Invocation cancelled") ∧
    (∀ others cap, r.outcome ≠ .completed →
      (ofLines t others cap timeoutMs).response = r.response) ∧
    (r.outcome = .completed →
      (r.provenance = .captured ↔ ∃ text v, d.result = some text ∧ Value.read text = .ok v) ∧
      (∀ text v, d.result = some text → Value.read text = .ok v → r.response = .ofValue v) ∧
      (r.provenance = .missing ↔ d.result = none ∧ ¬ overflows) ∧
      (r.provenance = .malformed ↔ (d.result = none ∧ overflows) ∨
        ∃ text error, d.result = some text ∧ Value.read text = .error error) ∧
      r.provenance ≠ .synthetic) ∧
    (r.provenance.isFallback = true → r.response = default) := by
  intro r d overflows
  refine ⟨outcome_completed_iff, outcome_timedOut_iff, outcome_cancelled_iff, ofLines_exitCode,
    ?_, ?_, fun others cap => response_eq_of_not_completed, ?_, response_of_fallback⟩
  · intro h
    obtain rfl := outcome_timedOut_iff.mp h
    exact ⟨rfl, rfl⟩
  · intro h
    obtain rfl := outcome_cancelled_iff.mp h
    exact ⟨rfl, rfl⟩
  · intro h
    obtain ⟨e, ht⟩ := exit_of_completed h
    obtain ⟨hp, hr⟩ : r.provenance = (emitted d).provenance ∧
        r.response = .ofValue (emitted d).value := ofLines_of_exit ht
    have ho : d.oversized = true ↔ overflows := Output.oversized_iff
    rw [hp, hr, ← ho, Bool.not_eq_true]
    refine ⟨captured_iff, ?_, missing_iff, malformed_iff, emitted_ne_synthetic⟩
    intro text v hd hv
    rw [emitted_of_read hd hv]

/-- A result that is kept although the output is still open at the deadline. -/
theorem run_classified_past_deadline :
    let lines := [.stdout Output.resultStart, .stdout "[]", .stdout Output.resultEnd]
    let r := ofLines (.exitedPastDeadline (.code 3)) lines 0 50
    r.outcome = .completed ∧ r.provenance = .captured :=
  ⟨rfl, ((run_classified (.exitedPastDeadline (.code 3)) _ 0 50).2.2.2.2.2.2.2.1 rfl).1.mpr
    ⟨"[]", .array [], rfl, rfl⟩⟩

end HandlerHost.Execution
