import HandlerHost.Proofs.Wire.Response

/-!
What coercion keeps of a value. A text is kept as it stands, and what is written out as JSON can be
read back, so nothing is lost but the difference between null and no value.
-/
namespace HandlerHost.Response

open Json (Value maxDepth)
open Text (Entries Dictionary)

variable {v w raw : Value} {ms : List (String × Value)} {k s : String}

/-- What becomes the body: a member of a record, or a value that is no record. -/
def bodyField : Value → Option Value
  | .object ms => Entries.find? "body" ms
  | v => some v

/-- What becomes the headers. -/
def headersField : Value → Option Value
  | .object ms => Entries.find? "headers" ms
  | _ => none

/-- A text that a value can be told from. The value itself, if that is a text; any other but null is
read back, unless it has fractions or nests deeper than a reader allows. -/
def Keeps : Value → String → Prop
  | .null, _ => False
  | .string t, s => s = t
  | v, s => v.Exact → v.depth ≤ maxDepth → Value.read s = .ok v

theorem textOf_eq_none : textOf v = none ↔ v = .null := by
  cases v <;> simp [textOf]

theorem keeps_textOf (hc : v.Canonical) (ht : textOf v = some s) : Keeps v s := by
  cases v
  case null => cases ht
  case string t => exact (Option.some.inj ht).symm
  all_goals
    obtain rfl := Option.some.inj ht
    exact fun he hn => Value.read_compact_of_canonical hc he hn

/-- A value that is written out as JSON and can be read back. -/
structure Legible (v : Value) : Prop where
  ne_null : v ≠ .null
  ne_string : ∀ t, v ≠ .string t
  exact : v.Exact
  shallow : v.depth ≤ maxDepth

theorem Keeps.read (h : Keeps v s) (hv : Legible v) : Value.read s = .ok v := by
  cases v
  case null => exact h.elim
  case string t => exact absurd rfl (hv.ne_string t)
  all_goals exact h hv.exact hv.shallow

/-- One text keeps one legible value at most. -/
theorem Keeps.unique (hv : Keeps v s) (hw : Keeps w s) (hlv : Legible v) (hlw : Legible w) :
    v = w :=
  Except.ok.inj ((hv.read hlv).symm.trans (hw.read hlw))

theorem canonical_of_find? (hc : Value.Canonical (.object ms)) (hf : Entries.find? k ms = some v) :
    v.Canonical :=
  Value.each_members hc _ (Entries.mem_of_find? hf)

theorem canonical_bodyField (hc : raw.Canonical) (hf : bodyField raw = some v) : v.Canonical := by
  cases raw
  case object ms => exact canonical_of_find? hc hf
  all_goals
    obtain rfl := Option.some.inj hf
    exact hc

theorem canonical_headersField (hc : raw.Canonical) (hf : headersField raw = some v) :
    v.Canonical := by
  cases raw
  case object ms => exact canonical_of_find? hc hf
  all_goals cases hf

theorem body_ofValue : (ofValue raw).body = ((bodyField raw).bind textOf).getD "" := by
  cases raw <;> rfl

theorem headers_ofValue : (ofValue raw).headers = headersOf (headersField raw) := by
  cases raw <;> rfl

theorem get?_headersOf (hm : Entries.Ascending ms) :
    (headersOf (some (.object ms))).get? k = (Entries.find? k ms).bind textOf := by
  have hd : (headersOf (some (.object ms))).get? k =
      Entries.find? k (Entries.convert textOf ms) :=
    Dictionary.get?_ofList (Entries.ascending_convert hm)
  rw [hd, Entries.find?_convert hm]

theorem ascending_of_canonical (hc : Value.Canonical (.object ms)) : Entries.Ascending ms := by
  cases hc with
  | object hm _ => exact hm

theorem keeps_body (hc : raw.Canonical) (hf : bodyField raw = some v) (hv : v ≠ .null) :
    Keeps v (ofValue raw).body := by
  obtain ⟨s, hs⟩ := Option.ne_none_iff_exists'.mp (mt textOf_eq_none.mp hv)
  rw [body_ofValue, hf, Option.bind_some, hs]
  exact keeps_textOf (canonical_bodyField hc hf) hs

/-- Of a canonical value nothing is lost that is coerced to text. The body is empty for null and for
no value, and else keeps the value, so that of values that are written out each has its own text.
The headers have the keys of an object whose values are not null, and keep these values; all else
gives no headers. -/
theorem coercion_lossless (hc : raw.Canonical) :
    (bodyField raw = none ∨ bodyField raw = some .null → (ofValue raw).body = "") ∧
      (∀ v, bodyField raw = some v → v ≠ .null → Keeps v (ofValue raw).body) ∧
      (∀ other v w, other.Canonical → bodyField raw = some v → bodyField other = some w →
        Legible v → Legible w → (ofValue raw).body = (ofValue other).body → v = w) ∧
      (∀ ms, headersField raw = some (.object ms) → ∀ k,
        ((ofValue raw).headers.get? k = none ↔
          Entries.find? k ms = none ∨ Entries.find? k ms = some .null) ∧
        ∀ v, Entries.find? k ms = some v → v ≠ .null →
          ∃ s, (ofValue raw).headers.get? k = some s ∧ Keeps v s) ∧
      ((∀ ms, headersField raw ≠ some (.object ms)) → (ofValue raw).headers = .empty) := by
  refine ⟨?_, fun v => keeps_body hc, ?_, ?_, ?_⟩
  · rintro (hf | hf) <;> simp [body_ofValue, hf, textOf]
  · intro other v w ho hv hw hlv hlw hs
    have hkeeps : Keeps w (ofValue other).body := keeps_body ho hw hlw.ne_null
    exact (keeps_body hc hv hlv.ne_null).unique (hs ▸ hkeeps) hlv hlw
  · intro ms hf k
    have hm : Value.Canonical (.object ms) := canonical_headersField hc hf
    rw [headers_ofValue, hf, get?_headersOf (ascending_of_canonical hm)]
    refine ⟨?_, fun v hv hn => ?_⟩
    · cases Entries.find? k ms <;> simp [textOf_eq_none]
    · obtain ⟨s, hs⟩ := Option.ne_none_iff_exists'.mp (mt textOf_eq_none.mp hn)
      exact ⟨s, by rw [hv, Option.bind_some, hs], keeps_textOf (canonical_of_find? hm hv) hs⟩
  · intro hf
    rw [headers_ofValue]
    unfold headersOf
    split
    · exact absurd ‹_› (hf _)
    · rfl

/-- A record whose body is an object, with a header that is null. -/
theorem coercion_lossless_record :
    let body : Value := .object [("a", .array [.ofNat 1, .null]), ("b", .string "\"")]
    let headers : Value := .object [("x-count", .ofNat 3), ("x-none", .null)]
    let raw : Value := .object [("body", body), ("headers", headers)]
    raw.Canonical ∧ Value.read (ofValue raw).body = .ok body ∧
      (ofValue raw).headers.get? "x-none" = none ∧
      ∃ s, (ofValue raw).headers.get? "x-count" = some s ∧ Value.read s = .ok (.ofNat 3) := by
  intro body headers raw
  have two : ∀ {α : Type} {P : α → Prop} {a b : α}, P a → P b → ∀ x ∈ [a, b], P x :=
    fun ha hb => List.forall_mem_cons.mpr ⟨ha, List.forall_mem_singleton.mpr hb⟩
  have hbody : body.Canonical ∧ body.Exact := by
    refine ⟨.object (List.pairwise_pair.mpr (by decide)) (two (.array ?_) .string),
      .object trivial (two (.array ?_) .string)⟩
    · exact two (.number rfl) .null
    · exact two (.number ⟨_, rfl⟩) .null
  have hheaders : headers.Canonical :=
    .object (List.pairwise_pair.mpr (by decide)) (two (.number rfl) .null)
  have hraw : raw.Canonical :=
    .object (List.pairwise_pair.mpr (by decide)) (two hbody.1 hheaders)
  obtain ⟨-, hkeeps, -, hfound, -⟩ := coercion_lossless hraw
  have hread : Value.read (ofValue raw).body = .ok body :=
    (hkeeps body rfl nofun).read ⟨nofun, nofun, hbody.2, by decide⟩
  obtain ⟨s, hs, hcount⟩ := (hfound _ rfl "x-count").2 (.ofNat 3) rfl nofun
  refine ⟨hraw, hread, (hfound _ rfl "x-none").1.mpr (.inr rfl), s, hs, ?_⟩
  exact hcount.read ⟨nofun, nofun, .number ⟨_, rfl⟩, by decide⟩

end HandlerHost.Response
