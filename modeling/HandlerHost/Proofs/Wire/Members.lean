import HandlerHost.Proofs.Json.Members
import HandlerHost.Proofs.Wire.Payload
import Mathlib

/-!
The texts a payload is decoded from. Its members may stand in any order and among any others, and
those that have their defaults may be left out; in an array the five values stand in their order.
No member may be there twice, and the runtime and the code must be there.
-/
namespace HandlerHost.Payload

open Json (Value Decoder Shape Spells Formed Padded SpellsObject SpellsArray)

variable {p : Payload} {ms : List (String × List Char)} {names : List String} {cs : List Char}
  {text : String}

def fieldNames : List String := ["runtime", "code", "event", "handler", "timeoutMs"]

/-- A member that holds what it is named for, or has another name and holds anything. -/
inductive Tells (p : Payload) : String × List Char → Prop
  | runtime {t : List Char} (h : Spells (.string p.runtime) t) : Tells p ("runtime", t)
  | code {t : List Char} (h : Spells (.string p.code) t) : Tells p ("code", t)
  | event {v : Value} {t : List Char} (h : Spells v t) (hv : v.ordered = p.event)
      (hd : v.depth ≤ 126) : Tells p ("event", t)
  | handler {t : List Char} (h : Spells (.ofOption .string p.handler) t) : Tells p ("handler", t)
  | timeoutMs {t : List Char}
      (h : Spells (.ofOption (fun t => .ofNat t.toNat) p.timeoutMs) t) : Tells p ("timeoutMs", t)
  | other {k : String} {t : List Char} (hk : k ∉ fieldNames) (h : Formed t) : Tells p (k, t)

/-- Members in some order that tell the payload. What is left out has its default. -/
structure Told (p : Payload) (ms : List (String × List Char)) : Prop where
  tells : ∀ m ∈ ms, Tells p m
  once : ∀ name ∈ fieldNames, (ms.map Prod.fst).count name ≤ 1
  runtime : "runtime" ∈ ms.map Prod.fst
  code : "code" ∈ ms.map Prod.fst
  event : "event" ∈ ms.map Prod.fst ∨ p.event = .emptyObject
  handler : "handler" ∈ ms.map Prod.fst ∨ p.handler = none
  timeoutMs : "timeoutMs" ∈ ms.map Prod.fst ∨ p.timeoutMs = none

/-- The draft of the payload after members of these names. -/
def drafted (p : Payload) (names : List String) : Draft where
  runtime := if "runtime" ∈ names then some p.runtime else none
  code := if "code" ∈ names then some p.code else none
  event := if "event" ∈ names then some p.event else none
  handler := if "handler" ∈ names then some p.handler else none
  timeoutMs := if "timeoutMs" ∈ names then some p.timeoutMs else none

theorem drafted_other {k : String} (hk : k ∉ fieldNames) :
    p.drafted (names ++ [k]) = p.drafted names := by
  simp only [fieldNames, List.mem_cons, List.not_mem_nil, or_false, not_or] at hk
  simp [drafted, hk, eq_comm (b := k)]

theorem find?_eq_none {k : String} :
    (shape.fields.find? fun f => f.name == k) = none ↔ k ∉ fieldNames := by
  simp [shape, Json.Field.of, fieldNames, eq_comm (b := k)]

/-- Each member takes the draft to the next one, and the last draft is finished. -/
theorem makes_drafted (h : ∀ m ∈ ms, Tells p m)
    (hn : ∀ name ∈ fieldNames, (names ++ ms.map Prod.fst).count name ≤ 1)
    (hf : (p.drafted (names ++ ms.map Prod.fst)).finish = .ok p) :
    shape.Makes 126 (p.drafted names) ms p := by
  induction ms generalizing names with
  | nil =>
    rw [List.map_nil, List.append_nil] at hf
    exact Shape.makes_nil hf
  | cons m ms ih =>
    obtain ⟨k, t⟩ := m
    have hnew : k ∈ fieldNames → k ∉ names := by
      intro hk hmem
      have hone := hn k hk
      have hpos := List.count_pos_iff.mpr hmem
      rw [List.count_append, List.map_cons, List.count_cons_self] at hone
      omega
    have hrest : shape.Makes 126 (p.drafted (names ++ [k])) ms p := by
      apply ih (fun m hm => h m (List.mem_cons_of_mem _ hm))
      · simpa [List.append_assoc] using hn
      · simpa [List.append_assoc] using hf
    cases h (k, t) List.mem_cons_self with
    | runtime ht =>
      have hgiven : (p.drafted names).runtime.isSome = false := by simp [drafted, hnew (by decide)]
      refine Shape.makes_known (s := shape) rfl hgiven ht (Nat.zero_le _)
        (Decoder.reads_field Decoder.reads_string) ?_
      simpa [drafted] using hrest
    | code ht =>
      have hgiven : (p.drafted names).code.isSome = false := by simp [drafted, hnew (by decide)]
      refine Shape.makes_known (s := shape) rfl hgiven ht (Nat.zero_le _)
        (Decoder.reads_field Decoder.reads_string) ?_
      simpa [drafted] using hrest
    | event ht hv hd =>
      have hgiven : (p.drafted names).event.isSome = false := by simp [drafted, hnew (by decide)]
      refine Shape.makes_known (s := shape) rfl hgiven ht hd (Decoder.reads_field (reads_event hv)) ?_
      simpa [drafted] using hrest
    | handler ht =>
      have hgiven : (p.drafted names).handler.isSome = false := by simp [drafted, hnew (by decide)]
      refine Shape.makes_known (s := shape) rfl hgiven ht (depth_ofOption fun _ => Nat.zero_le _)
        (Decoder.reads_field reads_handler) ?_
      simpa [drafted] using hrest
    | timeoutMs ht =>
      have hgiven : (p.drafted names).timeoutMs.isSome = false := by
        simp [drafted, hnew (by decide)]
      refine Shape.makes_known (s := shape) rfl hgiven ht (depth_ofOption fun _ => Nat.zero_le _)
        (Decoder.reads_field reads_timeoutMs) ?_
      simpa [drafted] using hrest
    | other hk ht =>
      rw [drafted_other hk] at hrest
      refine Shape.makes_unknown (find?_eq_none.mpr hk) ht hrest

/-- An option is the same whether it is told or left out, where leaving it out means that it is
absent. -/
theorem join_drafted {β : Type} {o : Option β} {told : Prop} [Decidable told]
    (h : told ∨ o = none) : (if told then some o else none).join = o := by
  rcases h with ht | ho
  · rw [if_pos ht]
    rfl
  · split <;> simp [ho]

theorem finish_drafted (h : Told p ms) : (p.drafted (ms.map Prod.fst)).finish = .ok p := by
  have hruntime : (p.drafted (ms.map Prod.fst)).runtime = some p.runtime := if_pos h.runtime
  have hcode : (p.drafted (ms.map Prod.fst)).code = some p.code := if_pos h.code
  have hevent : ((p.drafted (ms.map Prod.fst)).event).getD .emptyObject = p.event := by
    rcases h.event with hm | hd
    · simp [drafted, hm]
    · simp only [drafted]
      split <;> simp [hd]
  have hhandler : ((p.drafted (ms.map Prod.fst)).handler).join = p.handler :=
    join_drafted h.handler
  have htimeout : ((p.drafted (ms.map Prod.fst)).timeoutMs).join = p.timeoutMs :=
    join_drafted h.timeoutMs
  rw [Draft.finish, hruntime, hcode, hevent, hhandler, htimeout]

/-- The five values of an array in their order. -/
theorem reads_items {event : Value} (hv : event.ordered = p.event) :
    decoder.Reads (.array [.string p.runtime, .string p.code, event, .ofOption .string p.handler,
      .ofOption (fun t => .ofNat t.toNat) p.timeoutMs]) p := by
  apply Shape.reads_array
  refine Shape.lists_cons (Decoder.reads_field Decoder.reads_string) ?_
  refine Shape.lists_cons (Decoder.reads_field Decoder.reads_string) ?_
  refine Shape.lists_cons (Decoder.reads_field (reads_event hv)) ?_
  refine Shape.lists_cons (Decoder.reads_field reads_handler) ?_
  refine Shape.lists_cons (Decoder.reads_field reads_timeoutMs) ?_
  exact Shape.lists_nil rfl

theorem lawful_shape : shape.Lawful where
  nodup := by decide
  conforms := by
    intro f hf
    simp only [shape, List.mem_cons, List.not_mem_nil, or_false] at hf
    rcases hf with rfl | rfl | rfl | rfl | rfl
    · exact Decoder.conforms_field Decoder.conforms_string
    · exact Decoder.conforms_field Decoder.conforms_string
    · exact Decoder.conforms_field Decoder.conforms_value
    · exact Decoder.conforms_field (Decoder.conforms_option Decoder.conforms_string)
    · exact Decoder.conforms_field (Decoder.conforms_option Decoder.conforms_word64)
  absent := by
    intro f hf
    simp only [shape, List.mem_cons, List.not_mem_nil, or_false] at hf
    rcases hf with rfl | rfl | rfl | rfl | rfl <;> rfl
  given := by
    intro f hf f' hf' b cs store rest h d
    simp only [shape, List.mem_cons, List.not_mem_nil, or_false] at hf hf'
    rcases hf with rfl | rfl | rfl | rfl | rfl <;>
      obtain ⟨x, -, hx⟩ := Json.exists_of_map h <;> cases hx <;>
      rcases hf' with rfl | rfl | rfl | rfl | rfl <;> rfl

theorem given_of_finish {d : Draft} (h : d.finish = .ok p) :
    d.runtime.isSome = true ∧ d.code.isSome = true := by
  unfold Draft.finish at h
  split at h
  · rename_i hr hc
    simp [hr, hc]
  · cases h
  · cases h

/-- Whatever an object is decoded as, it has each field at most once, and the two that must be
there. -/
theorem names_of_decode (hs : SpellsObject ms cs) (hms : ∀ m ∈ ms, Formed m.2)
    (ht : Padded cs text) (h : Json.decode decoder text = .ok p) :
    (∀ name ∈ fieldNames, (ms.map Prod.fst).count name ≤ 1) ∧
      "runtime" ∈ ms.map Prod.fst ∧ "code" ∈ ms.map Prod.fst := by
  obtain ⟨tail, hm, rfl⟩ := hs
  obtain ⟨gap, gap', hg, -, ht⟩ := ht
  obtain ⟨n, hn, hd⟩ := Shape.decode_object_eq_ok (s := shape) (a := p) hg ht
  obtain ⟨rest, -, hr⟩ := hd.mp h
  obtain ⟨d, hfinish, hcount⟩ := Shape.members_eq_ok lawful_shape hms hm hn hr
  obtain ⟨hruntime, hcode⟩ := given_of_finish hfinish
  have hfields : ∀ f ∈ shape.fields, (ms.map Prod.fst).count f.name = (f.given d).toNat := by
    intro f hf
    rw [hcount f hf, lawful_shape.absent f hf, Bool.toNat_false, Nat.zero_add]
  refine ⟨fun name hname => ?_, ?_, ?_⟩
  · have hnames : fieldNames = shape.fields.map Json.Field.name := rfl
    obtain ⟨f, hf, rfl⟩ := List.mem_map.mp (hnames ▸ hname)
    rw [hfields f hf]
    exact Bool.toNat_le _
  · have hone : (ms.map Prod.fst).count "runtime" = d.runtime.isSome.toNat :=
      hfields _ (List.mem_cons_self ..)
    apply List.count_pos_iff.mp
    rw [hone, hruntime]
    decide
  · have hone : (ms.map Prod.fst).count "code" = d.code.isSome.toNat :=
      hfields _ (List.mem_cons_of_mem _ (List.mem_cons_self ..))
    apply List.count_pos_iff.mp
    rw [hone, hcode]
    decide

/-- Whatever an array is decoded as, it has a runtime and a code. -/
theorem two_le_of_decode {ts : List (List Char)} (hs : SpellsArray ts cs)
    (hts : ∀ t ∈ ts, Formed t) (ht : Padded cs text) (h : Json.decode decoder text = .ok p) :
    2 ≤ ts.length := by
  obtain ⟨tail, hm, rfl⟩ := hs
  obtain ⟨gap, gap', hg, -, ht⟩ := ht
  obtain ⟨n, -, hd⟩ := Shape.decode_array_eq_ok (s := shape) (a := p) hg ht
  obtain ⟨rest, -, hr⟩ := hd.mp h
  obtain ⟨d, hfinish, hgiven⟩ := Shape.items_eq_ok lawful_shape (fun _ hf => hf) hm hts hr
  have hcode : "code" ∈ fieldNames.take ts.length := by
    have hg := hgiven _ (List.mem_cons_of_mem _ (List.mem_cons_self ..)) (given_of_finish hfinish).2
    rcases hg with hstart | hmem
    · cases hstart
    · exact hmem
  by_contra hlt
  have hfew : fieldNames.take ts.length = [] ∨ fieldNames.take ts.length = ["runtime"] := by
    have : ts.length = 0 ∨ ts.length = 1 := by omega
    rcases this with h | h <;> rw [h] <;> simp [fieldNames]
  rcases hfew with h | h <;> rw [h] at hcode <;> simp at hcode

/-- A payload is decoded from its members in any order, among members of other names with any
well-formed texts in them, and without those that have their defaults; or from the array of its five
values. An object that has one of the five names twice, or lacks a runtime or a code, is rejected,
and so is an array that is too short to have both. -/
theorem decode_members (p : Payload) :
    (∀ text cs ms, Padded cs text → SpellsObject ms cs → Told p ms →
      Json.decode decoder text = .ok p) ∧
    (∀ text cs event, Padded cs text → event.ordered = p.event → event.depth ≤ 126 →
      Spells (.array [.string p.runtime, .string p.code, event, .ofOption .string p.handler,
        .ofOption (fun t => .ofNat t.toNat) p.timeoutMs]) cs →
      Json.decode decoder text = .ok p) ∧
    (∀ text cs ms, Padded cs text → SpellsObject ms cs → (∀ m ∈ ms, Formed m.2) →
      (∃ name ∈ fieldNames, 2 ≤ (ms.map Prod.fst).count name) ∨ "runtime" ∉ ms.map Prod.fst ∨
        "code" ∉ ms.map Prod.fst →
      ∃ e, Json.decode decoder text = .error e) ∧
    (∀ text cs ts, Padded cs text → SpellsArray ts cs → (∀ t ∈ ts, Formed t) → ts.length < 2 →
      ∃ e, Json.decode decoder text = .error e) := by
  have hstart : p.drafted [] = shape.start := rfl
  refine ⟨?_, ?_, ?_, ?_⟩
  · intro text cs ms ht hs h
    refine Shape.decode_of_makes (s := shape) ?_ hs ht
    rw [← hstart]
    exact makes_drafted h.tells (by simpa using h.once) (finish_drafted h)
  · intro text cs event ht hv hd hs
    obtain ⟨gap, gap', hg, hg', ht⟩ := ht
    refine Json.decode_of_reads (reads_items hv) hs ?_ hg hg' ht
    apply Value.depth_array_le
    simp only [List.mem_cons, List.not_mem_nil, or_false, forall_eq_or_imp, forall_eq]
    exact ⟨Nat.zero_le _, Nat.zero_le _, hd, depth_ofOption fun _ => Nat.zero_le _,
      depth_ofOption fun _ => Nat.zero_le _⟩
  · intro text cs ms ht hs hms hbad
    cases hd : Json.decode decoder text with
    | error e => exact ⟨e, rfl⟩
    | ok q =>
      obtain ⟨honce, hruntime, hcode⟩ := names_of_decode hs hms ht hd
      rcases hbad with ⟨name, hname, htwo⟩ | hno | hno
      · exact absurd (honce name hname) (by omega)
      · exact absurd hruntime hno
      · exact absurd hcode hno
  · intro text cs ts ht hs hts hlt
    cases hd : Json.decode decoder text with
    | error e => exact ⟨e, rfl⟩
    | ok q => exact absurd (two_le_of_decode hs hts ht hd) (by omega)

/-- A numeral that no binary fraction can hold, in a member that is passed over, and the code before
the runtime; and an object with two codes and no runtime. -/
theorem decode_members_shuffled :
    (Json.decode decoder "\x7b\"z\":[1E999],\"code\":\"x\",\"runtime\":\"py\"\x7d " =
      .ok ⟨"py", "x", .emptyObject, none, none⟩) ∧
    ∃ e, Json.decode decoder "\x7b\"code\":\"x\",\"code\":\"x\"\x7d" = .error e := by
  let literal (s : String) : List Char := '"' :: (s.toList.flatMap Json.escapeChar ++ ['"'])
  have hstring : ∀ s, Json.SpellsString s (literal s) := fun s =>
    ⟨_, Json.spellsChars_escape s.toList, rfl⟩
  have hmember : ∀ k t, Json.SpellsMember Eq (k, t) (literal k ++ [] ++ ':' :: [] ++ t) := fun k t =>
    .mk (hstring k) Json.blank_nil Json.blank_nil rfl
  have hcomma : Json.Separator false ([] ++ [',']) := Json.separator_false Json.blank_nil
  have hend : Json.SpellsItems '\x7d' (Json.SpellsMember (α := List Char) Eq) false []
      ([] ++ ['\x7d']) := .nil Json.blank_nil
  constructor
  · have hone : Json.IsWhole ['1'] :=
      ⟨⟨by simp, List.forall_mem_singleton.mpr rfl⟩, fun h => by simp at h⟩
    have hscale : Json.IsScale ['E', '9', '9', '9'] :=
      .inr ⟨'E', [], ['9', '9', '9'], .inr rfl, .inl rfl, ⟨by simp, by simp [Text.isDigit]⟩, rfl⟩
    have hnumeral : Formed (['1'] ++ ([] ++ ['E', '9', '9', '9'])) :=
      .numeral (.mk hone (.inl rfl) hscale)
    have hitems : Json.SpellsItems ']' (fun _ : Unit => Formed) true [()]
        ([] ++ [] ++ ['1', 'E', '9', '9', '9'] ++ ([] ++ [']'])) :=
      .cons Json.separator_true Json.blank_nil hnumeral (.nil Json.blank_nil)
    have hspells : SpellsObject [("z", ['[', '1', 'E', '9', '9', '9', ']']),
        ("code", literal "x"), ("runtime", literal "py")] _ :=
      ⟨_, .cons Json.separator_true Json.blank_nil (hmember _ _)
        (.cons hcomma Json.blank_nil (hmember _ _)
          (.cons hcomma Json.blank_nil (hmember _ _) hend)), rfl⟩
    refine (decode_members ⟨"py", "x", .emptyObject, none, none⟩).1 _ _ _
      ⟨[], [' '], Json.blank_nil, List.forall_mem_singleton.mpr rfl, ?_⟩ hspells ?_
    · decide
    · refine ⟨?_, by decide, by decide, by decide, .inr rfl, .inr rfl, .inr rfl⟩
      simp only [List.mem_cons, List.not_mem_nil, or_false, forall_eq_or_imp, forall_eq]
      exact ⟨.other (by decide) (.array hitems), .code (.string (hstring _)),
        .runtime (.string (hstring _))⟩
  · have hspells : SpellsObject [("code", literal "x"), ("code", literal "x")] _ :=
      ⟨_, .cons Json.separator_true Json.blank_nil (hmember _ _)
        (.cons hcomma Json.blank_nil (hmember _ _) hend), rfl⟩
    refine (decode_members default).2.2.1 _ _ _ ⟨[], [], Json.blank_nil, Json.blank_nil, ?_⟩ hspells
      ?_ (.inr (.inl (by decide)))
    · decide
    · simp only [List.mem_cons, List.not_mem_nil, or_false, forall_eq_or_imp, forall_eq]
      have hx : Formed (literal "x") :=
        .string (.mk (Json.formedChars_of_spellsChars (Json.spellsChars_escape _)))
      exact ⟨hx, hx⟩

end HandlerHost.Payload
