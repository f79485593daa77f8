import HandlerHost.Proofs.Config.Variable

/-!
The root of all workspaces as a variable of the environment gives it. The value is first taken for a
truth value or a number if it looks like one, and the root is what that is turned back into. So a
root is as given where it looks like neither, or where it is written in the usual way.
-/
namespace HandlerHost.Config

open Text (Dictionary Entries)
open Decimal (slash_notMem_of_spelled slash_notMem_of_sign)

variable {h : Host} {path : Option String} {es es' : Layer} {c : Config} {s s₀ k text : String}
  {v : Setting}

/-- The variable that sets the root. -/
def rootVariable : String := "FUNCBOX_WORKSPACE_ROOT"

/-- A machine where the variable has this value. -/
def withRoot (h : Host) (s : String) : Host := { h with env := h.env.insert rootVariable s }

/-- No other variable leads to the root: variables are known by their names in any case. -/
def RootApart (h : Host) : Prop :=
  ∀ e ∈ h.env.entries, ∀ key, variableKey? e.1 = some key → topKey key = "workspace_root" →
    e.1 = rootVariable

theorem variableKey?_root : variableKey? rootVariable = some "workspace_root" := by cbv

/-! ### What the variable says -/

theorem says_root (ha : RootApart h) :
    Says (environmentLayer (withRoot h s)) "workspace_root" (some (variableSetting s)) := by
  have hfind : Entries.find? rootVariable (withRoot h s).env.entries = some s := by
    rw [withRoot, Dictionary.insert, Entries.find?_insert, if_pos rfl]
  have hsays : Says (environmentLayer (withRoot h s)) "workspace_root"
      ((Entries.find? rootVariable (withRoot h s).env.entries).map variableSetting) := by
    refine says_read (withRoot h s).env.ascending variableKey?_root (topKey_of_mem (by decide)) ?_
    intro e he j hj htop
    rcases Entries.mem_insert he with rfl | he
    · rfl
    · exact ha e he j hj htop
  rwa [hfind] at hsays

/-- Of every other key the environment says the same. -/
theorem filter_withRoot (hk : k ≠ "workspace_root") :
    (environmentLayer (withRoot h s)).filter (fun e => topKey e.1 == k) =
      (environmentLayer h).filter fun e => topKey e.1 == k := by
  have htop : topKey "workspace_root" = "workspace_root" := topKey_of_mem (by decide)
  rw [environmentLayer, environmentLayer, List.filter_filterMap, List.filter_filterMap]
  refine Entries.filterMap_insert fun v => ?_
  simp [variableKey?_root, htop, Ne.symm hk]

theorem toText?_of_held (h : Held s v) : ∃ text, v.toText? = some text := by
  cases h <;> exact ⟨_, rfl⟩

theorem ne_table_of_held (h : Held s v) : ∀ es, v ≠ .table es := by
  cases h <;> exact nofun

theorem find?_withRoot (ha : RootApart h) (hk : k ∈ keys) :
    Entries.find? k (layered es (withRoot h s)).entriesOf =
      if k = "workspace_root" then some (variableSetting s)
      else Entries.find? k (layered es h).entriesOf := by
  split
  · rename_i hroot
    subst hroot
    have hheld : Held s (variableSetting s) := held_iff.mpr rfl
    have hv : ∀ v ∈ some (variableSetting s), ∀ es, v ≠ .table es := by
      intro v hv
      exact Option.some.inj hv ▸ ne_table_of_held hheld
    rw [layered, find?_overlay_plain hk (says_root ha) hv, Option.some_or]
  · rename_i hroot
    rw [layered, layered, find?_overlay_filter rfl, filter_withRoot hroot,
      ← find?_overlay_filter rfl]

/-! ### The configuration that comes out -/

/-- Apart from its root a configuration does not depend on what the root is. -/
theorem ofEntries?_root (hes : ofEntries? es = some c)
    (hsame : ∀ k ∈ keys, k ≠ "workspace_root" → Entries.find? k es' = Entries.find? k es)
    (hroot : pick rootOf? es' "workspace_root" empty.workspaceRoot = some (some text)) :
    ofEntries? es' = some { c with workspaceRoot := some text } := by
  have hpick : ∀ {α : Type} {read : Setting → Option α} {k : String} {builtIn : α}, k ∈ keys →
      k ≠ "workspace_root" → pick read es' k builtIn = pick read es k builtIn := by
    intro α read k builtIn hk hne
    rw [pick, pick, hsame k hk hne]
  simp only [ofEntries?, Option.bind_eq_bind, Option.bind_eq_some_iff] at hes
  obtain ⟨root, -, default, hdefault, max, hmax, concurrent, hconcurrent, lines, hlines, isolation,
    hisolation, interpreters, hinterpreters, hc⟩ := hes
  obtain rfl := Option.some.inj hc
  simp (disch := decide) only [ofEntries?, hroot, hpick, hdefault, hmax, hconcurrent, hlines,
    hisolation, hinterpreters]
  rfl

theorem pick_root (ha : RootApart h) (ht : (variableSetting s).toText? = some text) :
    pick rootOf? (layered es (withRoot h s)).entriesOf "workspace_root" empty.workspaceRoot =
      some (some text) := by
  have hv : rootOf? (variableSetting s) = (variableSetting s).toText?.map some := by
    cases hs : variableSetting s with
    | absent => simp [hs, Setting.toText?] at ht
    | _ => rfl
  rw [pick, find?_withRoot ha (by decide), if_pos rfl]
  exact hv.trans (by rw [ht]; rfl)

/-- A root changes nothing but the root of what is loaded where all else is the same. -/
theorem load_withRoot {h' : Host} (ha : RootApart h) (hes : fileEntries h path = .ok es)
    (hc : ofSettings (layered es h') = .ok c)
    (hsame : ∀ k ∈ keys, k ≠ "workspace_root" →
      Entries.find? k (layered es h).entriesOf = Entries.find? k (layered es h').entriesOf)
    (ht : (variableSetting s).toText? = some text) :
    load (withRoot h s) path = .ok { c with workspaceRoot := some text } := by
  have hes' : fileEntries (withRoot h s) path = .ok es := hes
  have hroot : ∀ k ∈ keys, k ≠ "workspace_root" →
      Entries.find? k (layered es (withRoot h s)).entriesOf =
        Entries.find? k (layered es h').entriesOf := by
    intro k hk hne
    rw [find?_withRoot ha hk, if_neg hne, hsame k hk hne]
  rw [ofSettings] at hc
  rw [load_eq hes', ofSettings]
  cases hentries : ofEntries? (layered es h').entriesOf with
  | none => simp [hentries] at hc
  | some c' =>
    rw [hentries] at hc
    rw [ofEntries?_root hentries hroot (pick_root ha ht)]
    have hdefect : { c' with workspaceRoot := some text }.defect? = c'.defect? := rfl
    simp only [hdefect]
    cases hd : c'.defect? with
    | some d => simp [hd] at hc
    | none =>
      simp only [hd] at hc
      obtain rfl := Except.ok.inj hc
      rfl

/-! ### The text that is kept -/

/-- The usual way to write what a value is taken for. -/
def Usual (s : String) : Setting → Prop
  | .bool b => s = truthName b
  | .integer _ => UsualInteger s.toList
  | .real x => s = x.text
  | _ => True

theorem text_eq_iff (hv : Held s v) (ht : v.toText? = some text) : text = s ↔ Usual s v := by
  cases hv with
  | truth _ =>
    obtain rfl := Option.some.inj ht
    exact eq_comm
  | integer hi _ =>
    obtain rfl := Option.some.inj ht
    exact toString_eq_iff hi
  | real _ _ _ =>
    obtain rfl := Option.some.inj ht
    exact eq_comm
  | text _ _ _ =>
    obtain rfl := Option.some.inj ht
    exact iff_of_true rfl trivial

/-- A path of more than one name is neither a truth value nor a number. -/
theorem eq_text_of_slash (hv : Held s v) (hs : '/' ∈ s.toList) : v = .text s := by
  cases hv with
  | @truth b hb =>
    have hlower : '/' ∈ (Text.lowerAscii s).toList := by
      rw [Text.lowerAscii, String.toList_map]
      exact List.mem_map_of_mem (f := Char.toLower) hs
    rw [hb] at hlower
    cases b <;> exact absurd hlower (by decide)
  | integer hi _ =>
    obtain ⟨_, sign, _, ds, hsign, hd, hcs, -⟩ := hi
    rw [hcs, List.mem_append] at hs
    exact hs.elim (fun h => absurd h (slash_notMem_of_sign hsign))
      fun h => absurd h (hd.notMem rfl)
  | real _ _ hx => exact absurd hs (slash_notMem_of_spelled hx)
  | text _ _ _ => rfl

/-- Where no other variable leads to the root and the layers are fine with some root, they are fine
with every root, and it changes nothing else. The value is taken for what it is the name, the digits
or the numeral of, and the root is the usual text of that: the value itself just if it is written in
the usual way, as a path of more than one name always is. -/
theorem root_as_held (ha : RootApart h) (hc : load (withRoot h s₀) path = .ok c) (s : String) :
    ∃ v text, Held s v ∧ v.toText? = some text ∧
      load (withRoot h s) path = .ok { c with workspaceRoot := some text } ∧
      (text = s ↔ Usual s v) ∧ ('/' ∈ s.toList → text = s) := by
  have hv : Held s (variableSetting s) := held_iff.mpr rfl
  obtain ⟨text, ht⟩ := toText?_of_held hv
  obtain ⟨es, hes⟩ := exists_fileEntries hc
  have hes' : fileEntries h path = .ok es := hes
  rw [load_eq hes] at hc
  have hload : load (withRoot h s) path = .ok { c with workspaceRoot := some text } := by
    refine load_withRoot ha hes' hc (fun k hk hne => ?_) ht
    rw [find?_withRoot ha hk, if_neg hne]
  refine ⟨_, text, hv, ht, hload, text_eq_iff hv ht, fun hs => ?_⟩
  rw [eq_text_of_slash hv hs] at ht
  exact (Option.some.inj ht).symm

/-- A machine without files and variables. -/
def bareHost : Host := ⟨⟨[]⟩, [], .empty⟩

theorem rootApart_bare : RootApart bareHost := fun _ he => by cases he

theorem load_bare (ht : (variableSetting s).toText? = some text) :
    load (withRoot bareHost s) none = .ok { empty with workspaceRoot := some text } := by
  have hc : ofSettings (layered [] bareHost) = .ok empty := by decide +kernel
  exact load_withRoot rootApart_bare rfl hc (fun _ _ _ => rfl) ht

/-- A path whose last name is of digits, after a root that is none. -/
theorem root_as_held_path :
    load (withRoot bareHost "/srv/007") none =
      .ok { empty with workspaceRoot := some "/srv/007" } := by
  have hc : load (withRoot bareHost "srv") none =
      .ok { empty with workspaceRoot := some "srv" } := load_bare (by decide +kernel)
  obtain ⟨v, text, -, -, hload, -, hslash⟩ := root_as_held rootApart_bare hc "/srv/007"
  rw [hslash (by decide)] at hload
  exact hload

/-- A root of digits loses the zeros in front. -/
theorem root_changed :
    load (withRoot bareHost "007") none = .ok { empty with workspaceRoot := some "7" } :=
  load_bare (by decide +kernel)

end HandlerHost.Config
