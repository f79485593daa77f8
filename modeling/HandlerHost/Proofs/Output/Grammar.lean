import HandlerHost.Output.Frame
import Mathlib.Algebra.GroupWithZero.Nat
import Mathlib.Data.List.Induction

/-!
The grammar of framed output, over the texts of standard output alone: which body stands in an
open capture, which one is the result, and whether some capture cost too much. Each notion is
described by what one more text does to it.
-/
namespace HandlerHost.Output

/-- The text of a line, whatever its stream. -/
def Line.text : Line → String
  | .stdout text => text
  | .stderr text => text

def Line.stdout? : Line → Option String
  | .stdout text => some text
  | .stderr _ => none

/-- The texts on standard output, in order. -/
def stdoutTexts (lines : List Line) : List String := lines.filterMap Line.stdout?

/-- The cost of all texts of a body. -/
def totalCost (body : List String) : Nat := (body.map cost).sum

def SentinelFree (body : List String) : Prop := resultStart ∉ body ∧ resultEnd ∉ body

/-- A capture of this body is open after the texts. -/
def Captures (limit : Nat) (texts body : List String) : Prop :=
  ∃ pre, texts = pre ++ [resultStart] ++ body ∧ SentinelFree body ∧ totalCost body ≤ limit

/-- This body is the result of the texts. -/
def Accepts (limit : Nat) (texts body : List String) : Prop :=
  ∃ pre post, texts = pre ++ [resultStart] ++ body ++ [resultEnd] ++ post ∧ SentinelFree body ∧
    totalCost body ≤ limit ∧ resultStart ∉ post

/-- Some capture among the texts costs too much. -/
def Overflows (limit : Nat) (texts : List String) : Prop :=
  ∃ pre body post, texts = pre ++ [resultStart] ++ body ++ post ∧ SentinelFree body ∧
    limit < totalCost body

variable {limit : Nat} {texts body : List String} {text : String} {lines : List Line}

theorem resultStart_ne_resultEnd : resultStart ≠ resultEnd := by decide

@[simp] theorem stdoutTexts_nil : stdoutTexts [] = [] := rfl

@[simp] theorem stdoutTexts_cons_stdout :
    stdoutTexts (.stdout text :: lines) = text :: stdoutTexts lines := rfl

@[simp] theorem stdoutTexts_cons_stderr :
    stdoutTexts (.stderr text :: lines) = stdoutTexts lines := rfl

theorem stdoutTexts_append {more : List Line} :
    stdoutTexts (lines ++ more) = stdoutTexts lines ++ stdoutTexts more := List.filterMap_append

@[simp] theorem totalCost_nil : totalCost [] = 0 := rfl

@[simp] theorem totalCost_concat : totalCost (body ++ [text]) = totalCost body + cost text := by
  simp [totalCost]

theorem sentinelFree_nil : SentinelFree [] := by simp [SentinelFree]

theorem sentinelFree_concat :
    SentinelFree (body ++ [text]) ↔ SentinelFree body ∧ text ≠ resultStart ∧ text ≠ resultEnd := by
  simp [SentinelFree, and_and_and_comm, eq_comm]

theorem captures_nil : ¬ Captures limit [] body := by
  rintro ⟨pre, h, -⟩
  simp at h

theorem accepts_nil : ¬ Accepts limit [] body := by
  rintro ⟨pre, post, h, -⟩
  simp at h

theorem overflows_nil : ¬ Overflows limit [] := by
  rintro ⟨pre, body, post, h, -⟩
  simp at h

/-- The last text of a sequence is the last text of its second part, unless that part is empty. -/
theorem concat_eq_split {texts front back : List String} {text : String}
    (h : texts ++ [text] = front ++ back) :
    (back = [] ∧ front = texts ++ [text]) ∨
      ∃ rest, back = rest ++ [text] ∧ texts = front ++ rest := by
  rcases List.eq_nil_or_concat back with rfl | ⟨rest, last, rfl⟩
  · exact .inl ⟨rfl, by simpa using h.symm⟩
  · have h : texts ++ [text] = (front ++ rest) ++ [last] := by simpa using h
    obtain ⟨ht, hl⟩ := List.append_inj' h rfl
    obtain rfl := List.singleton_inj.mp hl
    exact .inr ⟨rest, by simp, ht⟩

/-- A start sentinel opens an empty capture; any other text but the end sentinel goes on with a
capture as long as the cost allows. -/
theorem captures_concat :
    Captures limit (texts ++ [text]) body ↔
      (text = resultStart ∧ body = []) ∨
      ∃ before, body = before ++ [text] ∧ text ≠ resultStart ∧ text ≠ resultEnd ∧
        Captures limit texts before ∧ totalCost before + cost text ≤ limit := by
  constructor
  · rintro ⟨pre, h, hf, hc⟩
    rcases concat_eq_split h with ⟨rfl, hp⟩ | ⟨before, rfl, rfl⟩
    · obtain ⟨-, hs⟩ := List.append_inj' hp rfl
      exact .inl ⟨(List.singleton_inj.mp hs).symm, rfl⟩
    · obtain ⟨hf, hs, he⟩ := sentinelFree_concat.mp hf
      rw [totalCost_concat] at hc
      exact .inr ⟨before, rfl, hs, he, ⟨pre, rfl, hf, by omega⟩, hc⟩
  · rintro (⟨rfl, rfl⟩ | ⟨before, rfl, hs, he, ⟨pre, rfl, hf, -⟩, hc⟩)
    · exact ⟨texts, by simp, sentinelFree_nil, by simp⟩
    · exact ⟨pre, by simp, sentinelFree_concat.mpr ⟨hf, hs, he⟩, by rwa [totalCost_concat]⟩

/-- An end sentinel accepts the open capture; any text but a start sentinel keeps a result. -/
theorem accepts_concat :
    Accepts limit (texts ++ [text]) body ↔
      (text = resultEnd ∧ Captures limit texts body) ∨
      (text ≠ resultStart ∧ Accepts limit texts body) := by
  constructor
  · rintro ⟨pre, post, h, hf, hc, hp⟩
    rcases concat_eq_split h with ⟨rfl, hb⟩ | ⟨post, rfl, rfl⟩
    · obtain ⟨rfl, hl⟩ := List.append_inj' hb rfl
      exact .inl ⟨(List.singleton_inj.mp hl).symm, pre, rfl, hf, hc⟩
    · rw [List.mem_append, List.mem_singleton, not_or] at hp
      exact .inr ⟨Ne.symm hp.2, pre, post, rfl, hf, hc, hp.1⟩
  · rintro (⟨rfl, pre, rfl, hf, hc⟩ | ⟨hs, pre, post, rfl, hf, hc, hp⟩)
    · exact ⟨pre, [], by simp, hf, hc, by simp⟩
    · exact ⟨pre, post ++ [text], by simp, hf, hc, by simp [hp, Ne.symm hs]⟩

/-- The first text beyond the limit makes an open capture overflow, and that is never undone. -/
theorem overflows_concat :
    Overflows limit (texts ++ [text]) ↔
      Overflows limit texts ∨
      ∃ before, text ≠ resultStart ∧ text ≠ resultEnd ∧ Captures limit texts before ∧
        limit < totalCost before + cost text := by
  constructor
  · rintro ⟨pre, body, post, h, hf, hc⟩
    rcases concat_eq_split h with ⟨rfl, hb⟩ | ⟨post, rfl, rfl⟩
    · rcases concat_eq_split hb.symm with ⟨rfl, -⟩ | ⟨before, rfl, rfl⟩
      · simp at hc
      · obtain ⟨hf, hs, he⟩ := sentinelFree_concat.mp hf
        rw [totalCost_concat] at hc
        -- The body may have been too costly before its last text.
        rcases Nat.lt_or_ge limit (totalCost before) with hb | hb
        · exact .inl ⟨pre, before, [], by simp, hf, hb⟩
        · exact .inr ⟨before, hs, he, ⟨pre, rfl, hf, hb⟩, hc⟩
    · exact .inl ⟨pre, body, post, rfl, hf, hc⟩
  · rintro (⟨pre, body, post, rfl, hf, hc⟩ | ⟨before, hs, he, ⟨pre, rfl, hf, -⟩, hc⟩)
    · exact ⟨pre, body, post ++ [text], by simp, hf, hc⟩
    · exact ⟨pre, before ++ [text], [], by simp, sentinelFree_concat.mpr ⟨hf, hs, he⟩,
        by rwa [totalCost_concat]⟩

/-- A result and an open capture exclude each other: one needs the end sentinel after the last
start sentinel, the other must not have it. -/
theorem not_accepts_of_captures {other : List String} (h : Captures limit texts body) :
    ¬ Accepts limit texts other := by
  induction texts using List.reverseRecOn generalizing body with
  | nil => exact accepts_nil
  | append_singleton texts text ih =>
    rw [accepts_concat]
    rintro (⟨rfl, -⟩ | ⟨hs, ha⟩)
    · rcases captures_concat.mp h with ⟨hs, -⟩ | ⟨_, -, -, he, -⟩
      · exact resultStart_ne_resultEnd hs.symm
      · exact he rfl
    · rcases captures_concat.mp h with ⟨hs', -⟩ | ⟨_, -, -, -, hc, -⟩
      · exact hs hs'
      · exact ih hc ha

theorem captures_start : Captures limit (texts ++ [resultStart]) body ↔ body = [] := by
  simp [captures_concat]

theorem not_accepts_start : ¬ Accepts limit (texts ++ [resultStart]) body := by
  simp [accepts_concat, resultStart_ne_resultEnd]

/-- What came before a start sentinel has no part in a later capture. -/
theorem captures_after_start {pre other rest : List String} :
    Captures limit (pre ++ [resultStart] ++ rest) body ↔
      Captures limit (other ++ [resultStart] ++ rest) body := by
  induction rest using List.reverseRecOn generalizing body with
  | nil => rw [List.append_nil, List.append_nil, captures_start, captures_start]
  | append_singleton rest text ih =>
    rw [← List.append_assoc, ← List.append_assoc, captures_concat, captures_concat]
    simp only [ih]

theorem accepts_after_start {pre other rest : List String} :
    Accepts limit (pre ++ [resultStart] ++ rest) body ↔
      Accepts limit (other ++ [resultStart] ++ rest) body := by
  induction rest using List.reverseRecOn with
  | nil =>
    rw [List.append_nil, List.append_nil]
    exact iff_of_false not_accepts_start not_accepts_start
  | append_singleton rest text ih =>
    rw [← List.append_assoc, ← List.append_assoc, accepts_concat, accepts_concat, ih,
      captures_after_start]

/-- One text in a frame is the result if its cost is within the limit. -/
theorem accepts_framed {pre : List String} (hs : text ≠ resultStart) (he : text ≠ resultEnd) :
    Accepts limit (pre ++ [resultStart] ++ [text] ++ [resultEnd]) body ↔
      body = [text] ∧ cost text ≤ limit := by
  have hcaptures : Captures limit (pre ++ [resultStart] ++ [text]) body ↔
      body = [text] ∧ cost text ≤ limit := by
    rw [captures_concat]
    simp only [captures_start]
    constructor
    · rintro (⟨h, -⟩ | ⟨before, rfl, -, -, rfl, hc⟩)
      · exact absurd h hs
      · exact ⟨rfl, by simpa using hc⟩
    · rintro ⟨rfl, hc⟩
      exact .inr ⟨[], rfl, hs, he, rfl, by simpa using hc⟩
  have haccepts : ¬ Accepts limit (pre ++ [resultStart] ++ [text]) body := by
    rw [accepts_concat]
    rintro (⟨h, -⟩ | ⟨-, h⟩)
    · exact he h
    · exact not_accepts_start h
  rw [accepts_concat, hcaptures]
  exact ⟨fun h => h.elim And.right fun h => absurd h.2 haccepts, fun h => .inl ⟨rfl, h⟩⟩

/-- One text in a frame overflows if its cost is beyond the limit. -/
theorem overflows_framed {pre post : List String} (hs : text ≠ resultStart)
    (he : text ≠ resultEnd) (hc : limit < cost text) :
    Overflows limit (pre ++ [resultStart] ++ [text] ++ post) :=
  ⟨pre, [text], post, rfl, by simp [SentinelFree, Ne.symm hs, Ne.symm he], by simpa [totalCost]⟩

end HandlerHost.Output
