import Mathlib
import HandlerHost.Runner.Script
import HandlerHost.Proofs.Request.Admission
import HandlerHost.Proofs.Json.RoundTrip

/-!
What a handler's name can change in a script. Every template has one place for the name, and the
name is written there as a string literal. The rest of the script is the same for all names.
-/
namespace HandlerHost

theorem Json.escapeChar_of_continuesName {c : Char} (h : continuesName c = true) :
    Json.escapeChar c = [c] := by
  have hc : c.toNat = 36 ∨ 48 ≤ c.toNat ∧ c.toNat ≠ 92 := by
    simp only [continuesName, startsName, isAsciiLetter, Text.isDigit, Bool.or_eq_true,
      Bool.and_eq_true, decide_eq_true_eq, beq_iff_eq, Char.le_def, UInt32.le_iff_toNat_le] at h
    rcases h with (((h | h) | rfl) | rfl) | h
    · have hlow : 97 ≤ c.toNat := h.1
      omega
    · have hlow : 65 ≤ c.toNat := h.1
      have hhigh : c.toNat ≤ 90 := h.2
      omega
    · decide
    · decide
    · have hlow : 48 ≤ c.toNat := h.1
      have hhigh : c.toNat ≤ 57 := h.2
      omega
  unfold Json.escapeChar
  split
  case h_8 => exact if_neg (by omega)
  all_goals simp at hc

/-- An identifier is its own literal, but for the quotes. -/
theorem Json.literal_of_isIdentifier {s : String} (h : isIdentifier s = true) :
    Json.literal s = "\"" ++ s ++ "\"" := by
  have hs : ∀ c ∈ s.toList, continuesName c = true := by
    unfold isIdentifier at h
    split at h
    · cases h
    · rename_i c cs hs
      rw [hs]
      obtain ⟨hc, hcs⟩ := Bool.and_eq_true_iff.mp h
      exact List.forall_mem_cons.mpr ⟨by simp [continuesName, hc], List.all_eq_true.mp hcs⟩
  have hplain : s.toList.flatMap Json.escapeChar = s.toList := by
    rw [List.flatMap_congr fun c hc => Json.escapeChar_of_continuesName (hs c hc)]
    simp
  apply String.toList_inj.mp
  rw [Json.toList_literal, hplain]
  simp

namespace Runner

variable {handler handler' source : String} {p : Piece} {cs : List Char} {skip : Nat}

namespace Piece

/-- What a template says in the place of a piece. -/
def written : Piece → List Char
  | char c => [c]
  | hole h => h.mark

end Piece

theorem Hole.mark_of_at? {h : Hole} (hc : Hole.at? cs = some h) :
    cs = h.mark ++ cs.drop h.mark.length := by
  rw [Hole.at?] at hc
  have hm : h.mark.isPrefixOf cs = true := (List.find?_some hc :)
  exact (List.prefix_iff_eq_append.mp (List.isPrefixOf_iff_prefix.mp hm)).symm

namespace Template

/-- A template is cut without loss. -/
theorem flatMap_pieces : (pieces skip cs).flatMap Piece.written = cs.drop skip := by
  induction cs generalizing skip with
  | nil => simp [pieces]
  | cons c cs ih =>
    cases skip with
    | succ skip => simpa [pieces] using ih
    | zero =>
      rw [pieces]
      split
      · rename_i h hc
        have hdrop : (c :: cs).drop h.mark.length = cs.drop (h.mark.length - 1) := rfl
        rw [List.flatMap_cons, ih, ← hdrop]
        exact (Hole.mark_of_at? hc).symm
      · simp [ih, Piece.written]

theorem count_newline_literal {s : String} : (Json.literal s).toList.count '\n' = 0 := by
  apply List.count_eq_zero.mpr
  intro h
  have hn : 0x20 ≤ '\n'.toNat := Json.literal_printable h
  revert hn
  decide

theorem count_newline_fill : (fill handler source p).count '\n' = p.written.count '\n' := by
  cases p with
  | char c => rfl
  | hole h =>
    rw [fill, count_newline_literal]
    cases h <;> decide

/-- Filling a template in keeps its line breaks. -/
theorem count_newline_render {template : String} :
    (render template handler source).toList.count '\n' = template.toList.count '\n' := by
  have hw : (pieces 0 template.toList).flatMap Piece.written = template.toList := flatMap_pieces
  have hf : List.count '\n' ∘ fill handler source = List.count '\n' ∘ Piece.written := by
    funext p
    exact count_newline_fill
  calc
    _ = ((pieces 0 template.toList).map (List.count '\n' ∘ fill handler source)).sum := by
      rw [render, String.toList_ofList, List.count_flatMap]
    _ = ((pieces 0 template.toList).flatMap Piece.written).count '\n' := by
      rw [hf, List.count_flatMap]
    _ = _ := by rw [hw]

/-- Only the handler's place is filled in after the handler. -/
theorem fill_of_ne (h : p ≠ .hole .handlerName) : fill handler source p = fill handler' source p := by
  rcases p with _ | (_ | _)
  case hole.handlerName => exact absurd rfl h
  all_goals rfl

/-- A template with one place for the handler is a text around the handler's literal. -/
theorem render_split {template : String}
    (h : (pieces 0 template.toList).count (.hole .handlerName) = 1) (source : String) :
    ∃ before after, ∀ handler,
      render template handler source = before ++ Json.literal handler ++ after := by
  have hm : Piece.hole .handlerName ∈ pieces 0 template.toList :=
    List.count_pos_iff.mp (by omega)
  obtain ⟨front, back, hp, hfront⟩ := List.eq_append_cons_of_mem hm
  have hback : Piece.hole .handlerName ∉ back := by
    rw [hp, List.count_append, List.count_cons_self, List.count_eq_zero.mpr hfront] at h
    exact List.count_eq_zero.mp (by omega)
  have hfixed : ∀ {ps : List Piece}, Piece.hole .handlerName ∉ ps → ∀ handler,
      ps.flatMap (fill handler source) = ps.flatMap (fill "" source) := by
    intro ps hps handler
    apply List.flatMap_congr
    intro p hp
    apply fill_of_ne
    rintro rfl
    exact hps hp
  refine ⟨String.ofList (front.flatMap (fill "" source)),
    String.ofList (back.flatMap (fill "" source)), ?_⟩
  intro handler
  apply String.toList_inj.mp
  rw [render, hp]
  simp [hfixed hfront, hfixed hback, fill, Hole.value]

end Template

/-- The characters of some lines. -/
inductive Spelt : List String → List (List Char) → Prop
  | nil : Spelt [] []
  | cons {cs : List Char} {lines : List String} {rows : List (List Char)} (h : Spelt lines rows) :
      Spelt (String.ofList cs :: lines) (cs :: rows)

theorem toList_of_spelt {lines : List String} {rows : List (List Char)} (h : Spelt lines rows) :
    (String.intercalate "\n" lines).toList = ['\n'].intercalate rows := by
  have hm : lines.map String.toList = rows := by
    induction h with
    | nil => rfl
    | cons _ ih => simp [ih]
  rw [String.toList_intercalate, hm]
  rfl

theorem moduleLines_spelt : ∃ rows, Spelt moduleLines rows ∧
    (Template.pieces 0 (['\n'].intercalate rows)).count (.hole .handlerName) = 1 := by
  apply Exists.intro
  constructor
  · unfold moduleLines
    repeat first | exact .nil | apply Spelt.cons
  · decide +kernel

theorem pythonLines_spelt : ∃ rows, Spelt pythonLines rows ∧
    (Template.pieces 0 (['\n'].intercalate rows)).count (.hole .handlerName) = 1 := by
  apply Exists.intro
  constructor
  · unfold pythonLines
    repeat first | exact .nil | apply Spelt.cons
  · decide +kernel

/-- Every template has one place for the handler's name. -/
theorem count_handlerName (l : Language) :
    (Template.pieces 0 (template l).toList).count (.hole .handlerName) = 1 := by
  obtain ⟨rows, hm, hmodule⟩ := moduleLines_spelt
  obtain ⟨rows', hp, hpython⟩ := pythonLines_spelt
  cases l
  case javascript => rw [template, toList_of_spelt hm, hmodule]
  case typescript => rw [template, toList_of_spelt hm, hmodule]
  case python => rw [template, toList_of_spelt hp, hpython]

theorem script_injective (l : Language) : Function.Injective (script l) := by
  intro handler handler' h
  obtain ⟨before, after, hs⟩ := Template.render_split (count_handlerName l) l.sourceFile
  rw [script, hs, script, hs, String.append_left_inj, String.append_right_inj] at h
  exact Json.literal_injective h

/-- A script is fixed but for one string literal, that of the handler's name. The literal holds no
control character, so the script has the lines of its template, and it is read as the name. The
name of a checked request stands in it as it is. -/
theorem handler_name_confined (l : Language) :
    (∃ before after, ∀ handler, script l handler = before ++ Json.literal handler ++ after) ∧
      (∀ handler, ∀ c ∈ (Json.literal handler).toList, 0x20 ≤ c.toNat) ∧
      (∀ handler, (script l handler).toList.count '\n' = (template l).toList.count '\n') ∧
      (∀ handler, Json.Value.read (Json.literal handler) = .ok (.string handler)) ∧
      Function.Injective (script l) ∧
      ∀ payload r, Request.ofPayload payload = .ok r →
        Json.literal r.handler = "\"" ++ r.handler ++ "\"" := by
  refine ⟨?_, ?_, ?_, Json.read_literal, script_injective l, ?_⟩
  · exact Template.render_split (count_handlerName l) l.sourceFile
  · intro handler c hc
    exact Json.literal_printable hc
  · intro handler
    exact Template.count_newline_render
  · intro payload r hr
    exact Json.literal_of_isIdentifier (Request.isIdentifier_handler hr)

/-- A name that reads like a place of the template is not looked at again. -/
theorem handler_name_confined_placeholder :
    let payload : Payload := ⟨"python", "x", .null, some "handler_name", none⟩
    let r : Request := ⟨.python, "x", .object [], "handler_name", none⟩
    Request.ofPayload payload = .ok r ∧
      ∃ before after, script .python r.handler = before ++ "\"handler_name\"" ++ after := by
  intro payload r
  have hlanguage : Language.ofName? "python" = some .python := by cbv
  have hrequest : Request.ofPayload payload = .ok r := by
    have hname : isIdentifier "handler_name" = true := by decide
    simp only [Request.ofPayload, payload, hlanguage, Option.getD_some, hname]
    rfl
  obtain ⟨⟨before, after, hs⟩, -, -, -, -, hplain⟩ := handler_name_confined .python
  have hl : Json.literal "handler_name" = "\"handler_name\"" := hplain payload r hrequest
  refine ⟨hrequest, before, after, ?_⟩
  rw [hs, hl]

end Runner

end HandlerHost
