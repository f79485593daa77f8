import HandlerHost.Proofs.Child.Attendance
import HandlerHost.Proofs.Execution.TrailingResult
import HandlerHost.Proofs.Json.Extent

/-!
A result on one line and the limit on lines. A line that is kept whole is captured; one that is cut
ends in the mark of a cut line, and no JSON text does. So the limit on lines, which is the lower
one, decides what becomes of a result that is printed on one line.
-/
namespace HandlerHost.Execution

open Json (Value)
open Output
open Child (Exit Life Termination Write)
open Text.Utf8 (encode)

variable {text line : String} {v : Value} {t : Termination} {e : Exit} {lines : List Line}
  {logLines timeoutMs : Nat}

/-- What is printed for a result in three lines after an empty one. -/
theorem forwarded_result :
    forwarded [resultBytes text] =
      [""] ++ [resultStart] ++ forwarded [encode text ++ [newline]] ++ [resultEnd] := by
  have h : forwarded [[] ++ resultBytes text ++ []] = _ := forwarded_framed
  have hf : forwarded [[] ++ [newline]] = [""] := by decide
  have hb : forwarded [[]] = [] := by decide
  rwa [hf, hb, List.nil_append, List.append_nil, List.append_nil] at h

/-- A line that fits loses at most a return at its end. -/
theorem forwarded_of_fits (hn : '\n' ∉ text.toList) (hl : text.utf8ByteSize ≤ maxLineBytes) :
    ∃ line gap, forwarded [encode text ++ [newline]] = [line] ∧
      text.toList = line.toList ++ gap ∧ Json.Blank gap := by
  rcases toList_withoutReturn text with h | h
  · exact ⟨_, [], forwarded_line hn hl, by rw [List.append_nil, ← h], Json.blank_nil⟩
  · exact ⟨_, ['\r'], forwarded_line hn hl, h, by simp [Json.Blank, Json.isSpace]⟩

/-- A line that does not fit is marked. -/
theorem forwarded_of_cut (hn : '\n' ∉ text.toList) (hl : maxLineBytes < text.utf8ByteSize) :
    ∃ kept, forwarded [encode text ++ [newline]] = [kept ++ truncationMark] := by
  have hm : newline ∉ encode text := Text.Utf8.notMem_encode (by decide) hn
  rw [← Text.Utf8.length_encode] at hl
  refine ⟨Text.Utf8.decode (dropReturn ((encode text).take maxLineBytes)), ?_⟩
  simp [forwarded, readLines_line hm, RawLine.text, hl]

/-- No value ends in the mark of a cut line. -/
theorem not_read_of_cut (kept : String) : Value.read (kept ++ truncationMark) ≠ .ok v := by
  have hm : (kept ++ truncationMark).toList =
      kept.toList ++ " [line truncate".toList ++ ['d', ']'] := by
    simp [truncationMark]
  exact Value.not_read_of_closing rfl (by decide) rfl hm

/-- A text is no sentinel if it can be read. -/
theorem ne_sentinel_of_read (h : Value.read line = .ok v) :
    line ≠ resultStart ∧ line ≠ resultEnd := by
  obtain ⟨hs, he⟩ := sentinelFree_of_read h
  exact ⟨fun h => hs (by simp [h]), fun h => he (by simp [h])⟩

/-- A framed line is captured if it can be read and costs no more than a result may. -/
theorem captured_of_framed (hx : t.exit? = some e)
    (hlines : stdoutTexts lines = [""] ++ [resultStart] ++ [line] ++ [resultEnd])
    (hv : Value.read line = .ok v) (hc : cost line ≤ maxResultBytes) :
    (ofLines t lines logLines timeoutMs).provenance = .captured ∧
      (ofLines t lines logLines timeoutMs).response = .ofValue v := by
  obtain ⟨hs, he⟩ := ne_sentinel_of_read hv
  have ha : Accepts maxResultBytes (stdoutTexts lines) [line] :=
    hlines ▸ (accepts_framed hs he).mpr ⟨rfl, hc⟩
  have hd : (decode (limits logLines) lines).result = some line :=
    result_eq_some_iff.mpr ⟨[line], ha, rfl⟩
  obtain ⟨hp, hr⟩ : (ofLines t lines logLines timeoutMs).provenance = _ ∧
      (ofLines t lines logLines timeoutMs).response = _ := ofLines_of_exit hx
  exact ⟨by rw [hp, emitted_of_read hd hv], by rw [hr, emitted_of_read hd hv]⟩

/-- A framed line that cannot be read makes a malformed result, however long it is. -/
theorem malformed_of_framed (hx : t.exit? = some e)
    (hlines : stdoutTexts lines = [""] ++ [resultStart] ++ [line] ++ [resultEnd])
    (hs : line ≠ resultStart) (he : line ≠ resultEnd) (hv : ∀ v, Value.read line ≠ .ok v) :
    (ofLines t lines logLines timeoutMs).provenance = .malformed ∧
      (ofLines t lines logLines timeoutMs).response = default := by
  have hp : (ofLines t lines logLines timeoutMs).provenance =
      (emitted (decode (limits logLines) lines)).provenance := (ofLines_of_exit hx).1
  have hm : (emitted (decode (limits logLines) lines)).provenance = .malformed := by
    rw [malformed_iff]
    by_cases hc : cost line ≤ maxResultBytes
    · have ha : Accepts maxResultBytes (stdoutTexts lines) [line] :=
        hlines ▸ (accepts_framed hs he).mpr ⟨rfl, hc⟩
      cases hr : Value.read line with
      | ok v => exact absurd hr (hv v)
      | error error =>
        exact .inr ⟨line, error, result_eq_some_iff.mpr ⟨[line], ha, rfl⟩, hr⟩
    · have ho : Overflows maxResultBytes (stdoutTexts lines) :=
        hlines ▸ overflows_framed hs he (Nat.not_le.mp hc)
      refine .inl ⟨?_, oversized_iff.mpr ho⟩
      cases hr : (decode (limits logLines) lines).result with
      | none => rfl
      | some text =>
        obtain ⟨body, ha, -⟩ := result_eq_some_iff.mp hr
        exact absurd ((accepts_framed hs he).mp (hlines ▸ ha)).2 hc
  refine ⟨hp.trans hm, response_of_fallback ?_⟩
  rw [hp, hm]
  rfl

/-- A line that fits in the limit on lines fits in the limit on results. -/
theorem cost_le_of_fits (hl : line.utf8ByteSize ≤ maxLineBytes) : cost line ≤ maxResultBytes := by
  have hlimit : maxLineBytes + 1 ≤ maxResultBytes := by decide
  rw [cost]
  omega

variable {life : Life} {time : Nat}

/-- The lines of a process that prints a result and ends in time. -/
theorem exists_lines (logLines : Nat) (halone : life.company = [])
    (he : life.ending = some (time, e)) (ht : time < timeoutMs)
    (hw : ∀ w ∈ life.writes, w.time < timeoutMs)
    (hout : (life.writes.filterMap Write.stdout?).flatten = resultBytes text) :
    ∃ t lines, t.exit? = some e ∧
      stdoutTexts lines =
        [""] ++ [resultStart] ++ forwarded [encode text ++ [newline]] ++ [resultEnd] ∧
      ofSupervisor (life.supervise (.patience timeoutMs)) logLines timeoutMs =
        ofLines t lines logLines timeoutMs := by
  obtain ⟨⟨t, ht, hx⟩, htexts⟩ := Life.supervise_of_exit halone he ht hw
  rw [forwarded_flatten, hout, forwarded_result] at htexts
  exact ⟨t, _, hx, htexts, by rw [ofSupervisor, ht]; rfl⟩

theorem captured_of_fits (logLines : Nat) (halone : life.company = [])
    (he : life.ending = some (time, e)) (ht : time < timeoutMs)
    (hw : ∀ w ∈ life.writes, w.time < timeoutMs)
    (hout : (life.writes.filterMap Write.stdout?).flatten = resultBytes text)
    (hv : Value.read text = .ok v) (hn : '\n' ∉ text.toList)
    (hl : text.utf8ByteSize ≤ maxLineBytes) :
    (ofSupervisor (life.supervise (.patience timeoutMs)) logLines timeoutMs).provenance =
        .captured ∧
      (ofSupervisor (life.supervise (.patience timeoutMs)) logLines timeoutMs).response =
        .ofValue v := by
  obtain ⟨t, lines, hx, hlines, hr⟩ := exists_lines logLines halone he ht hw hout
  obtain ⟨line, gap, hline, htext, hg⟩ := forwarded_of_fits hn hl
  rw [hline] at hlines
  have hread : Value.read line = .ok v := by
    have h : Value.read (String.ofList (line.toList ++ gap)) = .ok v := by
      rwa [← htext, String.ofList_toList]
    have hl := Value.read_of_append_blank h hg
    rwa [String.ofList_toList] at hl
  have hsize : line.utf8ByteSize ≤ text.utf8ByteSize := by
    have ht : text = line ++ String.ofList gap := String.toList_inj.mp (by simp [htext])
    rw [ht, String.utf8ByteSize_append]
    exact Nat.le_add_right _ _
  rw [hr]
  exact captured_of_framed hx hlines hread (cost_le_of_fits (Nat.le_trans hsize hl))

theorem malformed_of_cut (logLines : Nat) (halone : life.company = [])
    (he : life.ending = some (time, e)) (ht : time < timeoutMs)
    (hw : ∀ w ∈ life.writes, w.time < timeoutMs)
    (hout : (life.writes.filterMap Write.stdout?).flatten = resultBytes text)
    (hn : '\n' ∉ text.toList) (hl : maxLineBytes < text.utf8ByteSize) :
    (ofSupervisor (life.supervise (.patience timeoutMs)) logLines timeoutMs).provenance =
        .malformed ∧
      (ofSupervisor (life.supervise (.patience timeoutMs)) logLines timeoutMs).response =
        default := by
  obtain ⟨t, lines, hx, hlines, hr⟩ := exists_lines logLines halone he ht hw hout
  obtain ⟨kept, hline⟩ := forwarded_of_cut hn hl
  rw [hline] at hlines
  obtain ⟨hs, he⟩ := append_mark_ne_sentinel kept
  rw [hr]
  exact malformed_of_framed hx hlines hs he fun _ => not_read_of_cut kept

/-- A JSON text that a process prints on one line between the sentinels, before it ends with code 0
and in time, is captured if it fits in the limit on lines. If it does not, its line is cut and the
result is malformed, although the limit on results may admit it. Nobody floods the output. -/
theorem one_line_result (hv : Value.read text = .ok v) (hn : '\n' ∉ text.toList)
    (hout : (life.writes.filterMap Write.stdout?).flatten = resultBytes text)
    (halone : life.company = []) (he : life.ending = some (time, .code 0)) (ht : time < timeoutMs)
    (hw : ∀ w ∈ life.writes, w.time < timeoutMs) (logLines : Nat) :
    let r := ofSupervisor (life.supervise (.patience timeoutMs)) logLines timeoutMs
    r.outcome = .completed ∧ r.exitCode = some 0 ∧
    (text.utf8ByteSize ≤ maxLineBytes → r.provenance = .captured ∧ r.response = .ofValue v) ∧
    (maxLineBytes < text.utf8ByteSize → r.provenance = .malformed ∧ r.response = default) := by
  intro r
  obtain ⟨t, lines, hx, -, hr⟩ := exists_lines logLines halone he ht hw hout
  refine ⟨?_, ?_, fun hl => captured_of_fits logLines halone he ht hw hout hv hn hl,
    fun hl => malformed_of_cut logLines halone he ht hw hout hn hl⟩
  · change (ofSupervisor _ _ _).outcome = _
    rw [hr, outcome_completed_iff]
    cases t with
    | exited e => exact ⟨e, .inl rfl⟩
    | exitedPastDeadline e => exact ⟨e, .inr rfl⟩
    | _ => cases hx
  · change (ofSupervisor _ _ _).exitCode = _
    rw [hr, ofLines_exitCode, hx]
    rfl

/-- A result whose line ends in a return, while a warning comes on standard error and a descendant
holds the output open past the deadline. -/
theorem one_line_result_returned :
    let text := "[1]\r"
    let life : Life := ⟨[⟨0, .stdout, resultBytes text⟩, ⟨1, .stderr, encode "late"⟩],
      some (2, .code 0), 90, []⟩
    (ofSupervisor (life.supervise (.patience 50)) 0 50).provenance = .captured ∧
      (ofSupervisor (life.supervise (.patience 50)) 0 50).response =
        .ofValue (.array [.number (.integer 1)]) := by
  intro text life
  have hv : Value.read "[1]\r" = .ok (.array [.number (.integer 1)]) := by cbv
  have hout : (life.writes.filterMap Write.stdout?).flatten = resultBytes text := by
    simp [life, Write.stdout?]
  exact (one_line_result hv (by decide) hout rfl rfl (by decide) (by decide) 0).2.2.1 (by decide)

theorem utf8ByteSize_spaces (n : Nat) :
    (String.ofList (List.replicate n ' ')).utf8ByteSize = n := by
  have hs : ' '.utf8Size = 1 := rfl
  simp [← Text.Utf8.length_encode, encode, List.length_flatMap, hs]

/-- A short string with many blanks behind it. -/
def paddedString (n : Nat) : String := "\"x\"" ++ String.ofList (List.replicate n ' ')

theorem utf8ByteSize_paddedString (n : Nat) : (paddedString n).utf8ByteSize = 3 + n := by
  have hs : "\"x\"".utf8ByteSize = 3 := rfl
  rw [paddedString, String.utf8ByteSize_append, utf8ByteSize_spaces, hs]

theorem read_paddedString (n : Nat) : Value.read (paddedString n) = .ok (.string "x") := by
  have hshort : Value.read "\"x\"" = .ok (.string "x") := rfl
  have hg : Json.Blank (List.replicate n ' ') := fun c hc => by
    rw [List.eq_of_mem_replicate hc]
    rfl
  have h := Value.read_append_blank hshort hg
  have ht : "\"x\"".toList ++ List.replicate n ' ' = (paddedString n).toList := by
    simp [paddedString]
  rwa [ht, String.ofList_toList] at h

theorem notMem_paddedString (n : Nat) : '\n' ∉ (paddedString n).toList := by
  simp [paddedString]

/-- A string that can be read, on one line that the limit on results admits, is not captured: it has
as many blanks behind it as a line may have bytes. -/
theorem one_line_result_cut :
    let text := paddedString maxLineBytes
    let life : Life := ⟨[⟨0, .stdout, resultBytes text⟩], some (1, .code 0), 1, []⟩
    let r := ofSupervisor (life.supervise (.patience 7000)) 1000 7000
    Value.read text = .ok (.string "x") ∧ '\n' ∉ text.toList ∧
      text.utf8ByteSize < maxResultBytes ∧ r.provenance = .malformed ∧
      r.response ≠ .ofValue (.string "x") := by
  have hsize := utf8ByteSize_paddedString maxLineBytes
  have hv := read_paddedString maxLineBytes
  have hn := notMem_paddedString maxLineBytes
  generalize paddedString maxLineBytes = text at *
  intro text life r
  -- The run is a value that nothing should compute.
  have hre : r = ofSupervisor (life.supervise (.patience 7000)) 1000 7000 := rfl
  clear_value r
  subst hre
  have hlimit : 3 + maxLineBytes < maxResultBytes := by decide
  have hl : maxLineBytes < text.utf8ByteSize := by
    rw [hsize]
    omega
  have hout : (life.writes.filterMap Write.stdout?).flatten = resultBytes text := by
    simp [life, Write.stdout?]
  have hw : ∀ w ∈ life.writes, w.time < 7000 := by simp [life]
  have halone : life.company = [] := rfl
  have he : life.ending = some (1, .code 0) := rfl
  have ht : 1 < 7000 := by decide
  obtain ⟨hp, hr⟩ := malformed_of_cut 1000 halone he ht hw hout hn hl
  have hd : (default : Response) ≠ .ofValue (.string "x") := by decide
  exact ⟨hv, hn, hsize.trans_lt hlimit, hp, fun h => hd (hr.symm.trans h)⟩

end HandlerHost.Execution
