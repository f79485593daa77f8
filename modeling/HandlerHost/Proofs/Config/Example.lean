import HandlerHost.Config.Source
import HandlerHost.Proofs.Runner.Rendering

/-! What the example says: the built-in values, each in a setting of its own. -/
namespace HandlerHost.Config

open Runner (Spelt toList_of_spelt)

/-- The layer of the example. -/
def exampleLayer : Layer := [
  ("default_timeout_ms", .integer 7000),
  ("isolation", .text "process"),
  ("max_concurrent", .integer 16),
  ("max_log_lines", .integer 1000),
  ("max_timeout_ms", .integer 60000)]

/-- The numbers and texts among the settings, whose equality can be decided. -/
def Setting.plain? : Setting → Option (Int ⊕ String)
  | .integer i => some (.inl i)
  | .text s => some (.inr s)
  | _ => none

theorem Setting.eq_of_plain? {s s' : Setting} (hs : s'.plain?.isSome = true)
    (h : s.plain? = s'.plain?) : s = s' := by
  cases s <;> cases s' <;> simp_all [Setting.plain?]

theorem eq_of_plain? {es es' : Layer} (hs : ∀ e ∈ es', e.2.plain?.isSome = true)
    (h : es.map (fun e => (e.1, e.2.plain?)) = es'.map fun e => (e.1, e.2.plain?)) : es = es' := by
  induction es' generalizing es with
  | nil => simpa using h
  | cons e' es' ih =>
    obtain ⟨hhead, htail⟩ := List.forall_mem_cons.mp hs
    obtain ⟨e, rest, rfl, heq, hrest⟩ := List.map_eq_cons_iff.mp h
    obtain ⟨hkey, hplain⟩ := Prod.mk.inj heq
    rw [ih htail hrest, Prod.ext hkey (Setting.eq_of_plain? hhead hplain)]

theorem exampleLines_spelt : ∃ rows, Spelt exampleLines rows ∧
    (['\n'].intercalate rows).head? = some '#' ∧
    (((Toml.lines? ((['\n'].intercalate rows).length + 1) .start (['\n'].intercalate rows)).bind
      Toml.Sections.close).map Toml.Draft.settleAll).map (List.map fun e => (e.1, e.2.plain?)) =
        some (exampleLayer.map fun e => (e.1, e.2.plain?)) := by
  apply Exists.intro
  refine ⟨?_, ?_, ?_⟩
  · unfold exampleLines
    repeat first | exact .nil | apply Spelt.cons
  · rfl
  · decide +kernel

theorem read_of_toList {text : String} {cs : List Char} (h : text.toList = cs)
    (hm : cs.head? ≠ some '\ufeff') : Toml.read text =
      ((Toml.lines? (cs.length + 1) .start cs).bind Toml.Sections.close).map
        Toml.Draft.settleAll := by
  unfold Toml.read
  rw [h]
  split
  · exact absurd rfl hm
  · rw [Option.map_bind]
    exact Option.bind_congr fun s _ => Option.map_eq_bind.symm

theorem readLayer_exampleText : readLayer exampleText = .ok exampleLayer := by
  obtain ⟨rows, hs, hhead, hread⟩ := exampleLines_spelt
  obtain ⟨es, hes, hplain⟩ := Option.map_eq_some_iff.mp hread
  have htext : Toml.read exampleText = some es := by
    rw [exampleText, read_of_toList (toList_of_spelt hs) (by simp [hhead]), hes]
  rw [readLayer, htext, eq_of_plain? (by decide) hplain]

end HandlerHost.Config
