import HandlerHost.Proofs.Output.Retention

/-!
The log cap decides nothing but how many log lines are kept. Two decoders that differ in it alone go
from line to line in step: they have the same capture open, keep the same result and send the same
texts to the logs.
-/
namespace HandlerHost.Output

variable {l m : Limits} {f g : Frame} {line : Line} {lines : List Line}
  {logs : Array String} {dropped : Nat}

namespace Frame

/-- These frames differ in what has been logged and dropped at most. -/
structure Alike (f g : Frame) : Prop where
  mode : f.mode = g.mode
  kept : f.kept = g.kept
  oversized : f.oversized = g.oversized

theorem alike_iff : Alike f g ↔ ∃ logs dropped, f = { g with logs, dropped } := by
  constructor
  · rintro ⟨hm, hk, ho⟩
    exact ⟨f.logs, f.dropped, by rw [← hm, ← hk, ← ho]⟩
  · rintro ⟨logs, dropped, rfl⟩
    exact ⟨rfl, rfl, rfl⟩

/-- What has been logged has no part in what a line does. -/
theorem turn_withLogs :
    turn l { f with logs, dropped } line = { f.turn l line with logs, dropped } := by
  cases line with
  | stderr text => rfl
  | stdout text =>
    obtain ⟨mode, kept, _, _, oversized⟩ := f
    simp only [turn]
    split
    · rfl
    · cases mode with
      | logging => rfl
      | capturing captured spent =>
        dsimp only
        split
        · rfl
        · split <;> rfl

theorem turn_limits (hb : l.resultBytes = m.resultBytes) : f.turn l line = f.turn m line := by
  unfold turn
  rw [hb]

theorem shed_limits (hb : l.resultBytes = m.resultBytes) : f.shed l line = f.shed m line := by
  unfold shed
  rw [hb]

namespace Alike

theorem turn (h : Alike f g) (hb : l.resultBytes = m.resultBytes) :
    Alike (f.turn l line) (g.turn m line) := by
  obtain ⟨logs, dropped, rfl⟩ := alike_iff.mp h
  rw [turn_withLogs, turn_limits hb]
  exact ⟨rfl, rfl, rfl⟩

theorem shed (h : Alike f g) (hb : l.resultBytes = m.resultBytes) :
    f.shed l line = g.shed m line := by
  obtain ⟨logs, dropped, rfl⟩ := alike_iff.mp h
  rw [shed_limits hb]
  rfl

theorem push (h : Alike f g) (hb : l.resultBytes = m.resultBytes) :
    Alike (f.push l line) (g.push m line) := by
  obtain ⟨hm, hk, ho⟩ : Alike (f.turn l line) (g.turn m line) := h.turn hb
  rw [push_eq, push_eq]
  exact ⟨by simpa using hm, by simpa using hk, by simpa using ho⟩

theorem pushes (h : Alike f g) (hb : l.resultBytes = m.resultBytes) :
    Alike (lines.foldl (Frame.push l) f) (lines.foldl (Frame.push m) g) := by
  induction lines generalizing f g with
  | nil => exact h
  | cons line lines ih => exact ih (h.push hb)

theorem shedAll (h : Alike f g) (hb : l.resultBytes = m.resultBytes) :
    f.shedAll l lines = g.shedAll m lines := by
  induction lines generalizing f g with
  | nil => rfl
  | cons line lines ih => rw [Frame.shedAll, Frame.shedAll, h.shed hb, ih (h.push hb)]

theorem isCapturing (h : Alike f g) : f.isCapturing = g.isCapturing := by
  rw [Frame.isCapturing, Frame.isCapturing, h.mode]

theorem openTexts (h : Alike f g) : f.openTexts = g.openTexts := by
  rw [Frame.openTexts, Frame.openTexts, h.mode]

theorem result (h : Alike f g) : (f.finish l).result = (g.finish m).result := by
  rw [finish_result, finish_result, h.kept]

end Alike

theorem alike_run (hb : l.resultBytes = m.resultBytes) : Alike (run l lines) (run m lines) :=
  Alike.pushes ⟨rfl, rfl, rfl⟩ hb

/-- The same texts are logged, whether or not they are kept. -/
theorem logged_limits (hb : l.resultBytes = m.resultBytes) : logged l lines = logged m lines := by
  have hshed : start.shedAll l lines = start.shedAll m lines := Alike.shedAll ⟨rfl, rfl, rfl⟩ hb
  rw [logged, logged, hshed, (alike_run hb).openTexts]

end Frame

/-- Whatever the log cap: a capture is open after the same lines, the same result is kept and the
same captures are oversized. The logs under a smaller cap are the first lines of the logs under a
greater one, and the others are counted. A cap that all lines fit in drops none, so these are the
first lines of all logs. -/
theorem log_cap_truncates (n m limit : Nat) (lines : List Line) :
    let capped : Limits := ⟨n, limit⟩
    let free : Limits := ⟨m, limit⟩
    (∀ count, let seen := lines.take count
      (Frame.run capped seen).isCapturing = (Frame.run free seen).isCapturing ∧
      (Frame.run capped seen).kept = (Frame.run free seen).kept ∧
      (Frame.run capped seen).oversized = (Frame.run free seen).oversized) ∧
    (decode capped lines).result = (decode free lines).result ∧
    (decode capped lines).oversized = (decode free lines).oversized ∧
    (n ≤ m → (decode capped lines).logs = (decode free lines).logs.take n ∧
      (decode capped lines).dropped =
        ((decode free lines).logs.length - n) + (decode free lines).dropped) ∧
    (lines.length ≤ m → (decode free lines).dropped = 0 ∧
      (decode capped lines).logs = (decode free lines).logs.take n ∧
      (decode capped lines).dropped = (decode free lines).logs.length - n) := by
  intro capped free
  have halike (seen : List Line) : Frame.Alike (Frame.run capped seen) (Frame.run free seen) :=
    Frame.alike_run rfl
  have hlogged : Frame.logged capped lines = Frame.logged free lines := Frame.logged_limits rfl
  refine ⟨fun count => ?_, (halike lines).result, ?_, fun hle => ?_, fun hall => ?_⟩
  · have h := halike (lines.take count)
    exact ⟨h.isCapturing, h.kept, h.oversized⟩
  · rw [decode, decode, Frame.finish_oversized, Frame.finish_oversized, (halike lines).oversized]
  · rw [decode_logs, decode_dropped, decode_logs, decode_dropped, hlogged, List.take_take,
      List.length_take, Nat.min_eq_left hle]
    refine ⟨rfl, ?_⟩
    change _ - n = min m _ - n + (_ - m)
    omega
  · have hlogs : (decode free lines).logs = Frame.logged free lines := decode_logs_of_le hall
    have hlength : (Frame.logged free lines).length ≤ lines.length := Frame.logged_length_le
    rw [hlogs, decode_logs, decode_dropped, decode_dropped, hlogged]
    exact ⟨Nat.sub_eq_zero_of_le (Nat.le_trans hlength hall), rfl, rfl⟩

/-- A result that is taken back goes to the logs line by line, and a blank line is not counted. -/
theorem log_cap_truncates_restarted :
    let lines := [.stdout resultStart, .stdout "a", .stdout resultEnd, .stderr " ", .stderr "b",
      .stdout resultStart]
    6 ≤ 6 ∧ (decode ⟨6, 16⟩ lines).dropped = 0 ∧
      (decode ⟨2, 16⟩ lines).logs = (decode ⟨6, 16⟩ lines).logs.take 2 ∧
      (decode ⟨2, 16⟩ lines).dropped = (decode ⟨6, 16⟩ lines).logs.length - 2 :=
  ⟨Nat.le_refl 6, (log_cap_truncates 2 6 16 _).2.2.2.2 (Nat.le_refl 6)⟩

end HandlerHost.Output
