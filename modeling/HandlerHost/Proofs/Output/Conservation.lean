import HandlerHost.Proofs.Output.Reading

/-!
No line is lost or doubled. What lines shed is logged up to the cap, and what is neither logged nor
dropped is held by the open capture or by the kept result.
-/
namespace HandlerHost.Output

open scoped List

/-- The texts that are log lines when they are logged. -/
def nonBlank (texts : List String) : List String := texts.filter fun text => !Text.blank text

theorem nonBlank_append {texts more : List String} :
    nonBlank (texts ++ more) = nonBlank texts ++ nonBlank more := List.filter_append ..

theorem nonBlank_perm {texts more : List String} (h : texts ~ more) :
    nonBlank texts ~ nonBlank more := h.filter _

namespace Frame

variable {l : Limits} {f : Frame} {line : Line} {lines : List Line} {text : String}
  {limit : Nat} {texts all : List String}

/-- The logs are the beginning of these texts, and all after the cap has been counted. -/
structure Capped (l : Limits) (all : List String) (f : Frame) : Prop where
  logs : f.logs.toList = all.take l.logLines
  dropped : f.dropped = all.length - l.logLines

/-- The texts that a frame still holds. -/
def held (f : Frame) : List String := f.keptTexts ++ f.openTexts

/-- All that some lines shed. -/
def shedAll (l : Limits) (f : Frame) : List Line → List String
  | [] => []
  | line :: lines => f.shed l line ++ shedAll l (f.push l line) lines

theorem capped_start : Capped l [] start where
  logs := by simp [start]
  dropped := by simp [start]

theorem capped_log (text : String) (h : Capped l all f) :
    Capped l (all ++ nonBlank [text]) (f.log l text) := by
  obtain ⟨hl, hd⟩ := h
  have hs : f.logs.size = min l.logLines all.length := by
    rw [← Array.length_toList, hl, List.length_take]
  unfold log
  split
  · rename_i hb
    simpa [nonBlank, hb] using Capped.mk hl hd
  · rename_i hb
    have ht : nonBlank [text] = [text] := by simp [nonBlank, hb]
    rw [ht]
    split
    · rename_i hc
      have hle : l.logLines ≤ all.length := by omega
      exact ⟨by rw [List.take_append_of_le_length hle, ← hl], by simp [hd]; omega⟩
    · rename_i hc
      have hlt : all.length < l.logLines := by omega
      refine ⟨?_, by simp [hd]; omega⟩
      rw [List.take_of_length_le (by simp; omega)]
      simp [hl, List.take_of_length_le (Nat.le_of_lt hlt)]

theorem capped_logAll (h : Capped l all f) :
    Capped l (all ++ nonBlank texts) (f.logAll l texts) := by
  induction texts generalizing all f with
  | nil => simpa [nonBlank] using h
  | cons text texts ih =>
    have hr := ih (capped_log text h)
    rwa [List.append_assoc, ← nonBlank_append] at hr

/-- Turning leaves the logs alone. -/
theorem turn_logs : (f.turn l line).logs = f.logs ∧ (f.turn l line).dropped = f.dropped := by
  unfold turn
  split
  · exact ⟨rfl, rfl⟩
  · split
    · exact ⟨rfl, rfl⟩
    · split
      · exact ⟨rfl, rfl⟩
      · split
        · exact ⟨rfl, rfl⟩
        · split <;> exact ⟨rfl, rfl⟩

theorem capped_turn (h : Capped l all f) : Capped l all (f.turn l line) := by
  obtain ⟨hl, hd⟩ : (f.turn l line).logs = f.logs ∧ (f.turn l line).dropped = f.dropped := turn_logs
  exact ⟨by rw [hl, h.logs], by rw [hd, h.dropped]⟩

theorem capped_pushes (h : Capped l all f) :
    Capped l (all ++ nonBlank (f.shedAll l lines)) (lines.foldl (push l) f) := by
  induction lines generalizing all f with
  | nil => simpa [shedAll, nonBlank] using h
  | cons line lines ih =>
    have hp : Capped l (all ++ nonBlank (f.shed l line)) (f.push l line) := by
      rw [push_eq]
      exact capped_logAll (capped_turn h)
    have hr := ih hp
    rwa [List.append_assoc, ← nonBlank_append] at hr

@[simp] theorem held_logAll : (f.logAll l texts).held = f.held := by
  simp [held, keptTexts, openTexts]

theorem kept_eq_none_of_capturing {captured : Array String} {spent : Nat}
    (h : Reads limit texts f) (hm : f.mode = .capturing captured spent) : f.kept = none := by
  have hc := ((h.capturing_iff captured spent).mp hm).1
  cases hk : f.kept with
  | none => rfl
  | some kept => exact absurd ((h.kept_iff kept).mp hk) (not_accepts_of_captures hc)

/-- A line is shed or held, and so is all that was held before. -/
theorem shed_perm (h : Reads limit texts f) :
    f.shed l line ++ (f.turn l line).held ~ f.held ++ [line.text] := by
  cases line with
  | stderr text => exact List.perm_append_comm
  | stdout text =>
    simp only [shed, turn, Line.text]
    split
    · rename_i hs
      simp [held, keptTexts, openTexts, hs]
    · cases hm : f.mode with
      | logging => exact List.perm_append_comm
      | capturing captured spent =>
        have hk := kept_eq_none_of_capturing h hm
        dsimp only
        split
        · rename_i he
          simp [held, keptTexts, openTexts, hm, hk, he]
        · split <;> simp [held, keptTexts, openTexts, hm, hk]

theorem shedAll_perm (h : Reads l.resultBytes texts f) :
    f.shedAll l lines ++ (lines.foldl (push l) f).held ~ f.held ++ lines.map Line.text := by
  induction lines generalizing texts f with
  | nil => simp [shedAll]
  | cons line lines ih =>
    have hl : Reads l.resultBytes (texts ++ stdoutTexts [line]) (f.push l line) := reads_push h
    have hp : f.shed l line ++ (f.push l line).held ~ f.held ++ [line.text] := by
      rw [push_eq, held_logAll]
      exact shed_perm h
    calc
      f.shedAll l (line :: lines) ++ ((line :: lines).foldl (push l) f).held
        = f.shed l line ++
            ((f.push l line).shedAll l lines ++ (lines.foldl (push l) (f.push l line)).held) := by
          simp [shedAll]
      _ ~ f.shed l line ++ ((f.push l line).held ++ lines.map Line.text) := (ih hl).append_left _
      _ = (f.shed l line ++ (f.push l line).held) ++ lines.map Line.text := by simp
      _ ~ (f.held ++ [line.text]) ++ lines.map Line.text := hp.append_right _
      _ = f.held ++ (line :: lines).map Line.text := by simp

/-- All texts that lines send to the logs, the open capture at their end included. -/
def logged (l : Limits) (lines : List Line) : List String :=
  nonBlank (start.shedAll l lines ++ (run l lines).openTexts)

theorem capped_logOpen (h : Capped l all f) :
    Capped l (all ++ nonBlank f.openTexts) (f.logOpen l) := by
  rw [logOpen_eq]
  exact capped_logAll ⟨h.logs, h.dropped⟩

theorem capped_run : Capped l (logged l lines) ((run l lines).logOpen l) := by
  have h : Capped l ([] ++ nonBlank (start.shedAll l lines)) (run l lines) :=
    capped_pushes capped_start
  simpa [logged, nonBlank_append] using capped_logOpen h

theorem logged_perm :
    logged l lines ++ nonBlank (run l lines).keptTexts ~ nonBlank (lines.map Line.text) := by
  rw [logged, ← nonBlank_append]
  apply nonBlank_perm
  calc
    start.shedAll l lines ++ (run l lines).openTexts ++ (run l lines).keptTexts
    _ ~ start.shedAll l lines ++ (run l lines).held := by
      rw [List.append_assoc]
      exact List.perm_append_comm.append_left _
    _ ~ start.held ++ lines.map Line.text :=
      shedAll_perm (reads_start : Reads l.resultBytes [] start)
    _ = lines.map Line.text := by simp [held, keptTexts, openTexts, start]

end Frame

variable {l : Limits} {lines : List Line}

theorem decode_logs : (decode l lines).logs = (Frame.logged l lines).take l.logLines :=
  Frame.capped_run.logs

theorem decode_dropped : (decode l lines).dropped = (Frame.logged l lines).length - l.logLines :=
  Frame.capped_run.dropped

/-- The lines that make up a kept result, blank ones left out. -/
def framed : Option (Array String) → List String
  | none => []
  | some body => [resultStart, resultEnd] ++ nonBlank body.toList

theorem framed_perm {f : Frame} : nonBlank f.keptTexts ~ framed f.kept := by
  have hs : Text.blank resultStart = false := by decide
  have he : Text.blank resultEnd = false := by decide
  unfold Frame.keptTexts
  cases f.kept with
  | none => simp [framed, nonBlank]
  | some body =>
    have hb : nonBlank (resultStart :: body.toList ++ [resultEnd]) =
        resultStart :: (nonBlank body.toList ++ [resultEnd]) := by simp [nonBlank, hs, he]
    rw [hb, framed]
    exact (List.perm_append_singleton _ _).cons _

theorem framed_length {kept : Option (Array String)} :
    (framed kept).length = kept.elim 0 fun body => 2 + (nonBlank body.toList).length := by
  cases kept with
  | none => rfl
  | some body => exact List.length_append

theorem logged_framed_perm :
    Frame.logged l lines ++ framed (Frame.run l lines).kept ~ nonBlank (lines.map Line.text) :=
  (framed_perm.symm.append_left _).trans Frame.logged_perm

/-- Under a cap of at least as many lines, every line that is not blank is either a log line or
part of the kept result, and none is both; under any cap the numbers agree. -/
theorem decode_conserves (l : Limits) (lines : List Line) :
    let kept := (Frame.run l lines).kept
    let d := decode l lines
    let input := nonBlank (lines.map Line.text)
    d.result = kept.map (fun body => String.intercalate "\n" body.toList) ∧
    (lines.length ≤ l.logLines → d.logs ++ framed kept ~ input) ∧
    d.logs.length + d.dropped + (kept.elim 0 fun body => 2 + (nonBlank body.toList).length) =
      input.length := by
  intro kept d input
  have hp : Frame.logged l lines ++ framed kept ~ input := logged_framed_perm
  have hn := hp.length_eq
  rw [List.length_append] at hn
  refine ⟨Frame.finish_result, ?_, ?_⟩
  · intro hc
    have hi : input.length ≤ lines.length := by
      simpa [input, nonBlank] using List.length_filter_le _ (lines.map Line.text)
    have hl : d.logs = Frame.logged l lines := by
      rw [decode_logs, List.take_of_length_le (by omega)]
    rw [hl]
    exact hp
  · have hl : d.logs.length = min l.logLines (Frame.logged l lines).length := by
      rw [decode_logs, List.length_take]
    have hd : d.dropped = (Frame.logged l lines).length - l.logLines := decode_dropped
    rw [← framed_length]
    omega

/-- A result that a later start sentinel takes back, and a kept one with a blank line. -/
theorem decode_conserves_restarted :
    let lines := [.stdout resultStart, .stdout "old", .stdout resultEnd, .stderr " ",
      .stdout resultStart, .stdout "\x7b\x7d", .stdout "", .stdout resultEnd]
    8 ≤ 8 ∧ (decode ⟨8, 64⟩ lines).logs ++ framed (Frame.run ⟨8, 64⟩ lines).kept ~
      nonBlank (lines.map Line.text) :=
  ⟨Nat.le_refl 8, (decode_conserves ⟨8, 64⟩ _).2.1 (Nat.le_refl 8)⟩

end HandlerHost.Output
