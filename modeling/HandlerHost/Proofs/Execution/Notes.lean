import HandlerHost.Proofs.Execution.Classification
import HandlerHost.Proofs.Output.LogCap

/-!
Notes of the host. They come after the log lines that were kept and change none of them. There are
five kinds in a fixed order, each with its own reason and at most once, and one of them excludes
three others, so four notes at most are added to the lines that the cap admits.
-/
namespace HandlerHost.Execution

open Json (Value)
open Output (Decoded Line decode)
open Child (Exit Termination)

variable {d : Decoded} {t : Termination} {e : Exit} {s : String} {lines : List Line}
  {logLines cap timeoutMs : Nat}

/-- The notes on a run, each where there is one. -/
structure Notes where
  truncation : Option String
  openOutput : Option String
  interruption : Option String
  exit : Option String
  fallback : Option String

/-- The notes in the order in which they are added. -/
def Notes.toList (n : Notes) : List String :=
  n.truncation.toList ++ n.openOutput.toList ++ n.interruption.toList ++ n.exit.toList ++
    n.fallback.toList

/-- How the end of a process is told. -/
inductive ExitText : Exit → String → Prop
  | code {n : Nat} : ExitText (.code n) (note ("process exited with code " ++ n.repr))
  | signal {n : Nat} : ExitText (.signal n) (note ("process terminated by signal " ++ n.repr))
  | unknown : ExitText .unknown (note "process exit status unknown")

/-- How it is told that an empty object stands in for the result. -/
inductive FallbackText (d : Decoded) : String → Prop
  | missing (hr : d.result = none) (ho : d.oversized = false) :
    FallbackText d (note "no result emitted, using \x7b\x7d")
  | oversized (hr : d.result = none) (ho : d.oversized = true) :
    FallbackText d
      (note ("result exceeded " ++ Output.maxResultBytes.repr ++ " bytes, using \x7b\x7d"))
  | unreadable {text : String} {error : Json.Error} (hr : d.result = some text)
      (he : Value.read text = .error error) :
    FallbackText d (note ("malformed result ignored, using \x7b\x7d: " ++ error.text))

/-- A note is there if and only if there is a reason for it. -/
structure Notes.Fit (n : Notes) (t : Termination) (d : Decoded) (timeoutMs : Nat) (r : Result) :
    Prop where
  truncation : ∀ s, n.truncation = some s ↔ 0 < d.dropped ∧
    s = note ("log output truncated (" ++ d.dropped.repr ++ " lines dropped)")
  openOutput : ∀ s, n.openOutput = some s ↔ (∃ e, t = .exitedPastDeadline e) ∧
    s = note ("output still open " ++ timeoutMs.repr ++ " ms after start, process group killed")
  interruption : ∀ s, n.interruption = some s ↔
    (r.outcome = .timedOut ∧ s = note ("timed out after " ++ timeoutMs.repr ++ " ms")) ∨
      (r.outcome = .cancelled ∧ s = note "invocation cancelled")
  exit : ∀ s, n.exit = some s ↔ r.outcome = .completed ∧ r.exitCode ≠ some 0 ∧
    ∃ e, t.exit? = some e ∧ ExitText e s
  fallback : ∀ s, n.fallback = some s ↔ r.provenance.isFallback = true ∧ FallbackText d s

/-- The notes on a run whose process ended by itself, one on its output among them. -/
def Notes.completed (e : Exit) (d : Decoded) (openOutput : Option String) : Notes :=
  ⟨(truncationNotes d).head?, openOutput, none, (exitNotes e).head?, (emitted d).notes.head?⟩

/-- The notes on a run that was interrupted. -/
def Notes.interrupted (d : Decoded) (text : String) : Notes :=
  ⟨(truncationNotes d).head?, none, some (note text), none, none⟩

/-- The notes on a run that ended so. -/
def Notes.of (t : Termination) (d : Decoded) (timeoutMs : Nat) : Notes :=
  match t with
  | .exited e => .completed e d none
  | .exitedPastDeadline e => .completed e d (some (openOutputNote timeoutMs))
  | .timedOut => .interrupted d ("timed out after " ++ timeoutMs.repr ++ " ms")
  | .cancelled => .interrupted d "invocation cancelled"

theorem truncationNotes_eq : truncationNotes d = (truncationNotes d).head?.toList := by
  unfold truncationNotes
  split <;> rfl

theorem head?_truncationNotes : (truncationNotes d).head? = some s ↔ 0 < d.dropped ∧
    s = note ("log output truncated (" ++ d.dropped.repr ++ " lines dropped)") := by
  unfold truncationNotes
  split
  · rename_i h
    simp [h]
  · rename_i h
    simp [Nat.pos_of_ne_zero h, eq_comm]

theorem exitNotes_eq : exitNotes e = (exitNotes e).head?.toList := by
  unfold exitNotes
  split <;> rfl

/-- Only an exit with code 0 is not told. -/
theorem head?_exitNotes : (exitNotes e).head? = some s ↔
    e.code?.map (fun n => (n : Int)) ≠ some 0 ∧ ExitText e s := by
  constructor
  · intro h
    cases e with
    | code n =>
      cases n with
      | zero => cases h
      | succ n =>
        obtain rfl := Option.some.inj h
        exact ⟨by simp [Exit.code?]; omega, .code⟩
    | signal n =>
      obtain rfl := Option.some.inj h
      exact ⟨by simp [Exit.code?], .signal⟩
    | unknown =>
      obtain rfl := Option.some.inj h
      exact ⟨by simp [Exit.code?], .unknown⟩
  · rintro ⟨hcode, htext⟩
    cases htext with
    | @code n =>
      cases n with
      | zero => exact absurd rfl hcode
      | succ n => rfl
    | signal => rfl
    | unknown => rfl

/-- A result that could not be used has one note, any other none. -/
theorem emitted_notes_eq : (emitted d).notes = (emitted d).notes.head?.toList := by
  unfold emitted standIn
  split
  · split <;> rfl
  · split <;> rfl

theorem notes_of_missing (hr : d.result = none) (ho : d.oversized = false) :
    (emitted d).notes = [note "no result emitted, using \x7b\x7d"] := by
  simp [emitted, hr, ho, standIn]

theorem notes_of_oversized (hr : d.result = none) (ho : d.oversized = true) :
    (emitted d).notes =
      [note ("result exceeded " ++ Output.maxResultBytes.repr ++ " bytes, using \x7b\x7d")] := by
  have hbytes : " bytes, " ++ "using \x7b\x7d" = " bytes, using \x7b\x7d" := by decide
  simp only [emitted, hr, ho, standIn, if_true]
  rw [String.append_assoc, hbytes]

theorem notes_of_unreadable {text : String} {error : Json.Error} (hr : d.result = some text)
    (he : Value.read text = .error error) :
    (emitted d).notes = [note ("malformed result ignored, using \x7b\x7d: " ++ error.text)] := by
  simp [emitted, hr, he]

/-- A result has a note if and only if something stands in for it. -/
theorem head?_emitted_notes : (emitted d).notes.head? = some s ↔
    (emitted d).provenance.isFallback = true ∧ FallbackText d s := by
  constructor
  · intro h
    cases hr : d.result with
    | none =>
      cases ho : d.oversized with
      | false =>
        rw [notes_of_missing hr ho] at h
        obtain rfl := Option.some.inj h
        exact ⟨by rw [missing_iff.mpr ⟨hr, ho⟩]; rfl, .missing hr ho⟩
      | true =>
        rw [notes_of_oversized hr ho] at h
        obtain rfl := Option.some.inj h
        exact ⟨by rw [malformed_iff.mpr (.inl ⟨hr, ho⟩)]; rfl, .oversized hr ho⟩
    | some text =>
      cases he : Value.read text with
      | ok v =>
        rw [emitted_of_read hr he] at h
        cases h
      | error error =>
        rw [notes_of_unreadable hr he] at h
        obtain rfl := Option.some.inj h
        exact ⟨by rw [(emitted_of_read_error hr he).2]; rfl, .unreadable hr he⟩
  · rintro ⟨-, htext⟩
    cases htext with
    | missing hr ho => rw [notes_of_missing hr ho, List.head?_cons]
    | oversized hr ho => rw [notes_of_oversized hr ho, List.head?_cons]
    | unreadable hr he => rw [notes_of_unreadable hr he, List.head?_cons]

theorem finalize_logs :
    (finalize t d timeoutMs).logs = d.logs ++ (Notes.of t d timeoutMs).toList := by
  cases t <;> simp [finalize, completed, timedOut, Result.cancelled, Notes.of, Notes.completed,
    Notes.interrupted, Notes.toList, ← truncationNotes_eq, ← exitNotes_eq, ← emitted_notes_eq]

theorem fit_completed {openOutput : Option String} (ht : t.exit? = some e)
    (ho : ∀ s, openOutput = some s ↔ (∃ e, t = .exitedPastDeadline e) ∧ s = note
      ("output still open " ++ timeoutMs.repr ++ " ms after start, process group killed")) :
    (Notes.completed e d openOutput).Fit t d timeoutMs (finalize t d timeoutMs) := by
  obtain ⟨logs, hr⟩ : ∃ logs, finalize t d timeoutMs = completed e d logs := finalize_of_exit ht
  rw [hr]
  refine ⟨fun s => head?_truncationNotes, ho, fun s => ?_, fun s => ?_,
    fun s => head?_emitted_notes⟩
  · simp [Notes.completed, completed]
  · have h : (exitNotes e).head? = some s ↔ _ := head?_exitNotes
    simpa [Notes.completed, completed, ht] using h

theorem fit_interrupted {text : String} {r : Result} (ht : t.exit? = none)
    (hs : r.provenance = .synthetic)
    (hi : ∀ s, s = note text ↔
      (r.outcome = .timedOut ∧ s = note ("timed out after " ++ timeoutMs.repr ++ " ms")) ∨
        (r.outcome = .cancelled ∧ s = note "invocation cancelled")) :
    (Notes.interrupted d text).Fit t d timeoutMs r where
  truncation _ := head?_truncationNotes
  openOutput s := by
    cases t with
    | exitedPastDeadline e => cases ht
    | _ => simp [Notes.interrupted]
  interruption s := by
    rw [← hi, Notes.interrupted, Option.some_inj, eq_comm]
  exit s := by simp [Notes.interrupted, ht]
  fallback s := by simp [Notes.interrupted, hs, Provenance.isFallback]

/-- The notes on a run have the reasons that its result shows. -/
theorem fit_of : (Notes.of t d timeoutMs).Fit t d timeoutMs (finalize t d timeoutMs) := by
  cases t with
  | exited e => exact fit_completed rfl (by simp)
  | exitedPastDeadline e => exact fit_completed rfl (by simp [openOutputNote, eq_comm])
  | timedOut => exact fit_interrupted rfl rfl (by simp [finalize, timedOut])
  | cancelled => exact fit_interrupted rfl rfl (by simp [finalize, Result.cancelled])

theorem length_completed_le {openOutput : Option String} :
    (Notes.completed e d openOutput).toList.length ≤ 4 := by
  have htruncation : (truncationNotes d).head?.toList.length ≤ 1 := Option.length_toList_le
  have hopen : openOutput.toList.length ≤ 1 := Option.length_toList_le
  have hexit : (exitNotes e).head?.toList.length ≤ 1 := Option.length_toList_le
  have hfallback : (emitted d).notes.head?.toList.length ≤ 1 := Option.length_toList_le
  simp only [Notes.completed, Notes.toList, List.length_append, Option.toList_none,
    List.length_nil]
  omega

theorem length_interrupted_le {text : String} : (Notes.interrupted d text).toList.length ≤ 2 := by
  have htruncation : (truncationNotes d).head?.toList.length ≤ 1 := Option.length_toList_le
  simp only [Notes.interrupted, Notes.toList, List.length_append, Option.toList_none,
    Option.toList_some, List.length_nil, List.length_singleton]
  omega

/-- An interruption leaves no room for the notes on a completed run. -/
theorem length_notes_le : (Notes.of t d timeoutMs).toList.length ≤ 4 := by
  cases t with
  | exited e => exact length_completed_le
  | exitedPastDeadline e => exact length_completed_le
  | timedOut => exact Nat.le_trans length_interrupted_le (by decide)
  | cancelled => exact Nat.le_trans length_interrupted_le (by decide)

theorem length_kept_le : (decode (limits logLines) lines).logs.length ≤ logLines := by
  rw [Output.decode_logs]
  exact List.length_take_le _ _

/-- The lines that are kept are the first ones of all that are logged; the others are counted. -/
theorem kept_of_cap (hc : lines.length ≤ cap) :
    (decode (limits logLines) lines).logs = (decode (limits cap) lines).logs.take logLines ∧
      (decode (limits logLines) lines).dropped =
        (decode (limits cap) lines).logs.length - logLines := by
  have hall : (decode (limits cap) lines).logs = Output.Frame.logged (limits logLines) lines := by
    rw [Output.decode_logs_of_le hc]
    exact Output.Frame.logged_limits rfl
  rw [hall]
  exact ⟨Output.decode_logs, Output.decode_dropped⟩

/-- The logs of a result are the kept log lines as they are, and then the notes of the host: how
many lines were dropped, that the output was still open at the deadline, the interruption, an exit
other than with code 0, and that an empty object stands in for the result, each exactly when it is
so. The kept lines are the first ones of all log lines, and the number in the note is that of the
others. So there are at most four lines more than the cap admits. -/
theorem notes_follow_logs (t : Termination) (lines : List Line) (logLines timeoutMs : Nat) :
    let d := decode (limits logLines) lines
    let r := ofLines t lines logLines timeoutMs
    (∃ n : Notes, r.logs = d.logs ++ n.toList ∧ n.Fit t d timeoutMs r) ∧
      (∀ cap, lines.length ≤ cap →
        d.logs = (decode (limits cap) lines).logs.take logLines ∧
          d.dropped = (decode (limits cap) lines).logs.length - logLines) ∧
      r.logs.length ≤ logLines + 4 := by
  intro d r
  have hlogs : r.logs = d.logs ++ (Notes.of t d timeoutMs).toList := finalize_logs
  refine ⟨⟨_, hlogs, fit_of⟩, fun cap => kept_of_cap, ?_⟩
  have hkept : d.logs.length ≤ logLines := length_kept_le
  have hnotes : (Notes.of t d timeoutMs).toList.length ≤ 4 := length_notes_le
  rw [hlogs, List.length_append]
  omega

/-- Two lines under a cap of one and a process that is killed while its output is open: every line
that there is room for. -/
theorem notes_follow_logs_killed :
    let lines := [.stdout "one", .stderr "two"]
    let r := ofLines (.exitedPastDeadline (.signal 9)) lines 1 50
    (decode (limits 1) lines).logs = (decode (limits 2) lines).logs.take 1 ∧
      r.logs.length ≤ 5 ∧
      r.logs = ["one", "[runtime] log output truncated (1 lines dropped)",
        "[runtime] output still open 50 ms after start, process group killed",
        "[runtime] process terminated by signal 9",
        "[runtime] no result emitted, using \x7b\x7d"] := by
  intro lines r
  obtain ⟨-, hkept, hlength⟩ := notes_follow_logs (.exitedPastDeadline (.signal 9)) lines 1 50
  exact ⟨(hkept 2 (by decide)).1, hlength, by decide⟩

end HandlerHost.Execution
