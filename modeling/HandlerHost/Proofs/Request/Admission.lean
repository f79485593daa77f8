import HandlerHost.Proofs.Request.Names

/-!
Which payloads become requests. A payload that meets all its conditions becomes the request that
carries its data; of any other the first condition that fails is reported, in the order runtime,
code, handler, timeout.
-/
namespace HandlerHost

open Text (Blanks)

variable {p : Payload} {r : Request} {e e' : Refusal}

namespace Payload

/-- What a payload has to be. -/
structure Valid (p : Payload) : Prop where
  runtime : ∃ l : Language, l.Named p.runtime
  code : ¬ Blanks p.code.toList
  handler : ∀ name, p.handler = some name → name.toList ∈ nameForm.matches'
  timeout : p.timeoutMs ≠ some 0

/-- The first condition that a payload fails. A fault with a text in it has the text as it was
sent. -/
inductive FirstFault (p : Payload) : Refusal → Prop
  | runtime (hr : ∀ l : Language, ¬ l.Named p.runtime) :
      FirstFault p (.unsupportedRuntime p.runtime)
  | code {l : Language} (hr : l.Named p.runtime) (hc : Blanks p.code.toList) :
      FirstFault p .emptyCode
  | handler {l : Language} {name : String} (hr : l.Named p.runtime)
      (hc : ¬ Blanks p.code.toList) (hh : p.handler = some name)
      (hn : name.toList ∉ nameForm.matches') : FirstFault p (.invalidHandler name)
  | timeout {l : Language} (hr : l.Named p.runtime) (hc : ¬ Blanks p.code.toList)
      (hh : ∀ name, p.handler = some name → name.toList ∈ nameForm.matches')
      (ht : p.timeoutMs = some 0) : FirstFault p .zeroTimeout

theorem FirstFault.not_valid (h : p.FirstFault e) : ¬ p.Valid := by
  intro hv
  cases h with
  | runtime hr =>
    obtain ⟨l, hl⟩ := hv.runtime
    exact hr l hl
  | code hr hc => exact hv.code hc
  | handler hr hc hh hn => exact hn (hv.handler _ hh)
  | timeout hr hc hh ht => exact hv.timeout ht

theorem FirstFault.unique (h : p.FirstFault e) (h' : p.FirstFault e') : e = e' := by
  cases h <;> cases h' <;> simp_all

end Payload

namespace Request

/-- The request has the data of the payload, with a handler where the payload names none and an
empty event in the place of null. -/
structure Carries (r : Request) (p : Payload) : Prop where
  runtime : r.language.Named p.runtime
  code : r.code = p.code
  event : (p.event = .null → r.event = .object []) ∧ (p.event ≠ .null → r.event = p.event)
  handler : (p.handler = none → r.handler = "handler") ∧
    ∀ name, p.handler = some name → r.handler = name
  timeout : r.timeoutMs = p.timeoutMs

theorem isIdentifier_defaultHandler : isIdentifier defaultHandler = true := by decide

/-- A payload without a handler has nothing to check there. -/
theorem isIdentifier_getD : isIdentifier (p.handler.getD defaultHandler) = true ↔
    ∀ name, p.handler = some name → name.toList ∈ nameForm.matches' := by
  cases p.handler with
  | none => simp [isIdentifier_defaultHandler]
  | some name => simp [isIdentifier_iff]

theorem blank_iff {s : String} : Text.blank s = true ↔ Blanks s.toList := by
  simp [Text.blank, Blanks]

theorem ofPayload_outcome (p : Payload) :
    (∃ r, ofPayload p = .ok r ∧ p.Valid ∧ r.Carries p) ∨
      ∃ e, ofPayload p = .error e ∧ p.FirstFault e := by
  simp only [ofPayload]
  cases hl : Language.ofName? p.runtime with
  | none => exact .inr ⟨_, rfl, .runtime (Language.ofName?_eq_none.mp hl)⟩
  | some l =>
    have hr := Language.ofName?_eq_some.mp hl
    simp only
    by_cases hc : Text.blank p.code = true
    · rw [if_pos hc]
      exact .inr ⟨_, rfl, .code hr (blank_iff.mp hc)⟩
    rw [if_neg hc]
    rw [blank_iff] at hc
    by_cases hn : isIdentifier (p.handler.getD defaultHandler) = true
    · have hh := isIdentifier_getD.mp hn
      rw [if_neg (by simp [hn])]
      by_cases ht : p.timeoutMs = some 0
      · rw [if_pos (by simp [ht])]
        exact .inr ⟨_, rfl, .timeout hr hc hh ht⟩
      rw [if_neg (by simpa using ht)]
      refine .inl ⟨_, rfl, ⟨⟨l, hr⟩, hc, hh, ht⟩, hr, rfl, ?_, ?_, rfl⟩
      · cases p.event <;> simp [Json.Value.isNull, Json.Value.emptyObject]
      · cases p.handler <;> simp [defaultHandler]
    · rw [if_pos (by simpa using hn)]
      rw [isIdentifier_getD] at hn
      push Not at hn
      obtain ⟨name, hname, hm⟩ := hn
      rw [hname]
      exact .inr ⟨_, rfl, .handler hr hc hname hm⟩

theorem ofPayload_ok (h : ofPayload p = .ok r) : p.Valid ∧ r.Carries p := by
  obtain ⟨r', hr, hv⟩ | ⟨e, he, -⟩ := ofPayload_outcome p
  · cases hr.symm.trans h
    exact hv
  · cases he.symm.trans h

/-- The handler of a request has passed its check. -/
theorem isIdentifier_handler (h : ofPayload p = .ok r) : isIdentifier r.handler = true := by
  obtain ⟨hv, hc⟩ := ofPayload_ok h
  cases hh : p.handler with
  | none =>
    rw [hc.handler.1 hh]
    exact isIdentifier_defaultHandler
  | some name =>
    rw [hc.handler.2 name hh]
    exact isIdentifier_iff.mpr (hv.handler name hh)

/-- A payload becomes a request if it is valid and only then. The request carries all of its data.
Of a payload that is refused the first fault is told. -/
theorem ofPayload_exact (p : Payload) :
    ((∃ r, ofPayload p = .ok r) ↔ p.Valid) ∧ (∀ r, ofPayload p = .ok r → r.Carries p) ∧
      ∀ e, ofPayload p = .error e ↔ p.FirstFault e := by
  refine ⟨?_, fun r hr => (ofPayload_ok hr).2, ?_⟩
  · constructor
    · rintro ⟨r, hr⟩
      exact (ofPayload_ok hr).1
    · intro hv
      obtain ⟨r, hr, -⟩ | ⟨e, -, hf⟩ := ofPayload_outcome p
      · exact ⟨r, hr⟩
      · exact absurd hv hf.not_valid
  · intro e
    obtain ⟨r, hr, hv, -⟩ | ⟨e', he', hf'⟩ := ofPayload_outcome p
    · constructor
      · intro he
        cases hr.symm.trans he
      · intro hf
        exact absurd hv hf.not_valid
    · constructor
      · intro he
        cases he'.symm.trans he
        exact hf'
      · intro hf
        rw [he', hf.unique hf']

/-- A runtime in capitals between blanks and no event; and a handler that is no identifier in a
payload whose deadline is zero as well. -/
theorem ofPayload_exact_python :
    let p : Payload := ⟨" PY\n", "x", .null, none, some 5⟩
    let r : Request := ⟨.python, "x", .object [], "handler", some 5⟩
    let q : Payload := ⟨"py", "x", .null, some "a-b", some 0⟩
    (ofPayload p = .ok r ∧ r.Carries p ∧ p.Valid) ∧
      ofPayload q = .error (.invalidHandler "a-b") ∧ q.FirstFault (.invalidHandler "a-b") := by
  intro p r q
  have hp : ofPayload p = .ok r := by
    have hl : Language.ofName? " PY\n" = some .python := by cbv
    simp only [ofPayload, p, hl, Option.getD_none, isIdentifier_defaultHandler]
    rfl
  have hq : ofPayload q = .error (.invalidHandler "a-b") := by
    have hl : Language.ofName? "py" = some .python := by cbv
    simp only [ofPayload, q, hl]
    rfl
  refine ⟨⟨hp, (ofPayload_exact p).2.1 r hp, (ofPayload_exact p).1.mp ⟨r, hp⟩⟩, hq, ?_⟩
  exact ((ofPayload_exact q).2.2 _).mp hq

end Request

end HandlerHost
