import Mathlib
import HandlerHost.Config.Source
import HandlerHost.Proofs.Config.Example
import HandlerHost.Proofs.Config.Merge
import HandlerHost.Proofs.Config.Validity
import HandlerHost.Proofs.Text.Blank
import HandlerHost.Proofs.Toml.Tidy

/-!
How the layers of a configuration come together. Each key of the top level is decided on its own: by
the highest layer that speaks of it. Only what comes out is validated, so what is wrong with a value
does not matter where a higher layer gives another one.
-/
namespace HandlerHost.Config

open Text (Entries Dictionary)

/-- The settings that are one number. -/
inductive NumberKey
  | defaultTimeout
  | maxTimeout
  | concurrency
  | logLines

namespace NumberKey

def name : NumberKey → String
  | defaultTimeout => "default_timeout_ms"
  | maxTimeout => "max_timeout_ms"
  | concurrency => "max_concurrent"
  | logLines => "max_log_lines"

/-- The variable of the environment that sets it. -/
def variableName : NumberKey → String
  | defaultTimeout => "FUNCBOX_DEFAULT_TIMEOUT_MS"
  | maxTimeout => "FUNCBOX_MAX_TIMEOUT_MS"
  | concurrency => "FUNCBOX_MAX_CONCURRENT"
  | logLines => "FUNCBOX_MAX_LOG_LINES"

/-- The value where nothing sets it. -/
def builtIn : NumberKey → Int
  | defaultTimeout => 7000
  | maxTimeout => 60000
  | concurrency => 16
  | logLines => 1000

theorem name_injective : Function.Injective name := by
  intro k k' h
  cases k <;> cases k' <;> first | rfl | exact absurd h (by decide)

end NumberKey

/-- The variable that sets the isolation. -/
def isolationVariable : String := "FUNCBOX_ISOLATION"

/-- The keys of a configuration. -/
def keys : List String :=
  ["workspace_root", "default_timeout_ms", "max_timeout_ms", "max_concurrent", "max_log_lines",
    "isolation", "interpreters"]

theorem NumberKey.name_mem_keys (k : NumberKey) : k.name ∈ keys := by
  cases k <;> decide

theorem segments_of_mem {k : String} (h : k ∈ keys) : segments k = [.name k] := by
  revert k
  decide +kernel

theorem topKey_of_mem {k : String} (h : k ∈ keys) : topKey k = k := by
  rw [topKey, segments_of_mem h]

theorem variableKey?_variableName (k : NumberKey) : variableKey? k.variableName = some k.name := by
  cases k <;> cbv

theorem variableKey?_isolation : variableKey? isolationVariable = some "isolation" := by cbv

/-- What a file and the environment say of the settings. -/
structure Said where
  inFile : NumberKey → Option Int
  inEnvironment : NumberKey → Option Int
  isolationInFile : Option Isolation
  isolationInEnvironment : Option Isolation
  /-- The commands that the file gives. -/
  interpreters : Dictionary (List String)

namespace Said

/-- The environment counts first, then the file, then the built-in value. -/
def number (w : Said) (k : NumberKey) : Int :=
  ((w.inEnvironment k).or (w.inFile k)).getD k.builtIn

def isolation (w : Said) : Isolation :=
  (w.isolationInEnvironment.or w.isolationInFile).getD .process

def word (w : Said) (k : NumberKey) : UInt64 := UInt64.ofNat (w.number k).toNat

/-- What is said, taken key by key. -/
def config (w : Said) : Config where
  workspaceRoot := none
  defaultTimeoutMs := w.word .defaultTimeout
  maxTimeoutMs := w.word .maxTimeout
  maxConcurrent := w.word .concurrency
  maxLogLines := w.word .logLines
  isolation := w.isolation
  interpreters := w.interpreters

/-- What the values must be when they have come together. -/
structure Valid (w : Said) : Prop where
  default_pos : 0 < w.number .defaultTimeout
  max_pos : 0 < w.number .maxTimeout
  default_le_max : w.number .defaultTimeout ≤ w.number .maxTimeout
  concurrency_pos : 0 < w.number .concurrency
  logLines_nonneg : 0 ≤ w.number .logLines
  entries : ∀ e ∈ w.interpreters.entries, ValidEntry e.1 e.2

end Said

/-- The settings of a file, as far as they matter: of a key that the environment sets they may say
anything. Keys that mean nothing may stand there too, as long as they do not lead into the
settings. -/
structure FileSays (es : Layer) (w : Said) : Prop where
  number : ∀ k, w.inEnvironment k = none → Entries.find? k.name es = (w.inFile k).map .integer
  bounded : ∀ k, ∀ i ∈ w.inFile k, i ≤ Int64.maxValue.toInt
  isolation : w.isolationInEnvironment = none →
    Entries.find? "isolation" es = w.isolationInFile.map fun i => .text i.name
  interpreters : (Entries.find? "interpreters" es).elim (some .empty) interpretersOf? =
    some w.interpreters
  noRoot : Entries.find? "workspace_root" es = none
  plain : ∀ e ∈ es, topKey e.1 ∈ keys → topKey e.1 = e.1

/-- The variables of the environment. Only those of the numbers and of the isolation may lead into
the settings. -/
structure EnvironmentSays (h : Host) (w : Said) : Prop where
  number : ∀ k, (h.envValue? k.variableName).map signed? = (w.inEnvironment k).map some
  isolation : h.envValue? isolationVariable = w.isolationInEnvironment.map Isolation.name
  plain : ∀ e ∈ h.env.entries, ∀ key, variableKey? e.1 = some key → topKey key ∈ keys →
    (∃ k : NumberKey, e.1 = k.variableName) ∨ e.1 = isolationVariable

/-! ### Values of variables -/

variable {s : String} {i : Int}

theorem digits_of_digitsValue? {cs : List Char} {n : Nat} (h : Text.digitsValue? cs = some n) :
    ∃ c rest, cs = c :: rest ∧ Text.isDigit c = true := by
  cases cs with
  | nil => cases h
  | cons c rest =>
    refine ⟨c, rest, rfl, ?_⟩
    cases hd : Text.isDigit c with
    | true => rfl
    | false => simp [Text.digitsValue?, hd] at h

theorem digits_of_signed? (h : signed? s = some i) :
    (∃ n, Text.digitsValue? (Decimal.Extended.splitSign s.toList).2 = some n) ∧
      i ≤ Int64.maxValue.toInt := by
  simp only [signed?, Option.bind_eq_bind, Option.bind_eq_some_iff, Option.ite_none_right_eq_some,
    Bool.and_eq_true, decide_eq_true_eq] at h
  obtain ⟨n, hn, ⟨-, hle⟩, hi⟩ := h
  exact ⟨⟨n, hn⟩, Option.some.inj hi ▸ hle⟩

theorem exists_cons_of_signed? (h : signed? s = some i) :
    ∃ c cs, s.toList = c :: cs ∧ c.toNat < 65 := by
  obtain ⟨⟨n, hn⟩, -⟩ := digits_of_signed? h
  obtain ⟨c, rest, hcs, hc⟩ := digits_of_digitsValue? hn
  generalize hs : s.toList = chars at hcs
  unfold Decimal.Extended.splitSign at hcs
  split at hcs
  · exact ⟨_, _, rfl, by decide⟩
  · exact ⟨_, _, rfl, by decide⟩
  · refine ⟨c, rest, hcs, ?_⟩
    simp only [Text.isDigit, Bool.and_eq_true, decide_eq_true_eq, Char.le_def,
      UInt32.le_iff_toNat_le] at hc
    have hhigh : c.toNat ≤ 57 := hc.2
    omega

/-- An integer is no truth value. -/
theorem variableSetting_of_signed? (h : signed? s = some i) : variableSetting s = .integer i := by
  obtain ⟨c, cs, hs, hc⟩ := exists_cons_of_signed? h
  have hhead : ∀ {word : String} {d : Char}, Text.lowerAscii s = word → word.toList.head? = some d →
      d.toNat < 65 := by
    rintro word d rfl hd
    rw [Text.lowerAscii, String.toList_map, hs, List.map_cons, List.head?_cons,
      Text.toLower_of_not_upper (by omega)] at hd
    exact Option.some.inj hd ▸ hc
  unfold variableSetting
  split
  · rename_i htrue
    exact absurd (hhead htrue rfl) (by decide)
  · rename_i hfalse
    exact absurd (hhead hfalse rfl) (by decide)
  · rw [h]

theorem variableSetting_isolation (i : Isolation) : variableSetting i.name = .text i.name := by
  cases i <;> cbv

/-! ### What each layer says -/

variable {h : Host} {path : Option String} {es : Layer} {w : Said} {k : String}

theorem says_exampleLayer (hk : k ∈ keys) :
    Says exampleLayer k (Entries.find? k exampleLayer) := by
  refine says_find? (by unfold Entries.Ascending; decide) (topKey_of_mem hk) fun e he htop => ?_
  have hkeys : ∀ e ∈ exampleLayer, e.1 ∈ keys := by decide
  rw [← topKey_of_mem (hkeys e he), htop]

theorem FileSays.says_file (hf : FileSays es w) (ha : Entries.Ascending es) (hk : k ∈ keys) :
    Says es k (Entries.find? k es) :=
  says_find? ha (topKey_of_mem hk) fun e he htop => (hf.plain e he (htop ▸ hk)).symm.trans htop

theorem NumberKey.name_ne (k : NumberKey) : k.name ≠ "isolation" := by
  cases k <;> decide

/-- A variable that leads to a key of the settings is the variable of that key. -/
theorem EnvironmentSays.variable_of_topKey (he : EnvironmentSays h w) {e : String × String}
    (hmem : e ∈ h.env.entries) {j : String} (hj : variableKey? e.1 = some j)
    (htop : topKey j ∈ keys) :
    (∃ k : NumberKey, e.1 = k.variableName ∧ topKey j = k.name) ∨
      e.1 = isolationVariable ∧ topKey j = "isolation" := by
  obtain ⟨k, hk⟩ | hk := he.plain e hmem j hj htop
  · rw [hk, variableKey?_variableName] at hj
    obtain rfl := Option.some.inj hj
    exact .inl ⟨k, hk, topKey_of_mem k.name_mem_keys⟩
  · rw [hk, variableKey?_isolation] at hj
    obtain rfl := Option.some.inj hj
    exact .inr ⟨hk, topKey_of_mem (by decide)⟩

theorem EnvironmentSays.says_number (he : EnvironmentSays h w) (k : NumberKey) :
    Says (environmentLayer h) k.name ((h.envValue? k.variableName).map variableSetting) := by
  refine says_read h.env.ascending (variableKey?_variableName k) (topKey_of_mem k.name_mem_keys) ?_
  intro e hmem j hj htop
  obtain ⟨k', hk', hname⟩ | ⟨-, hname⟩ :=
    he.variable_of_topKey hmem hj (htop ▸ k.name_mem_keys)
  · rw [hk', NumberKey.name_injective (hname.symm.trans htop)]
  · exact absurd (htop.symm.trans hname) k.name_ne

theorem EnvironmentSays.says_isolation (he : EnvironmentSays h w) :
    Says (environmentLayer h) "isolation"
      ((h.envValue? isolationVariable).map variableSetting) := by
  refine says_read h.env.ascending variableKey?_isolation (topKey_of_mem (by decide)) ?_
  intro e hmem j hj htop
  obtain ⟨k', -, hname⟩ | ⟨hk, -⟩ := he.variable_of_topKey hmem hj (htop ▸ by decide)
  · exact absurd (hname.symm.trans htop) k'.name_ne
  · exact hk

theorem EnvironmentSays.says_nothing (he : EnvironmentSays h w) (hk : k ∈ keys)
    (hnumber : ∀ k' : NumberKey, k'.name ≠ k) (hisolation : "isolation" ≠ k) :
    Says (environmentLayer h) k none := by
  apply says_none
  intro e hmem htop
  obtain ⟨e', hmem', hread⟩ := List.mem_filterMap.mp hmem
  obtain ⟨j, hj, rfl⟩ := Option.map_eq_some_iff.mp hread
  obtain ⟨k', -, hname⟩ | ⟨-, hname⟩ := he.variable_of_topKey hmem' hj (htop ▸ hk)
  · exact hnumber k' (hname.symm.trans htop)
  · exact hisolation (hname.symm.trans htop)

/-! ### What comes out -/

/-- A layer that says no table of a key takes the place of the layers below, if it speaks. -/
theorem find?_overlay_plain {base : Setting} {layer : Layer} {o : Option Setting} (hk : k ∈ keys)
    (h : Says layer k o) (hv : ∀ v ∈ o, ∀ es, v ≠ .table es) :
    Entries.find? k (Setting.overlay base layer).entriesOf =
      o.or (Entries.find? k base.entriesOf) := by
  rw [find?_overlay (segments_of_mem hk) h]
  cases o with
  | none => rfl
  | some v => exact congrArg some (Setting.mergeInto_of_ne (hv v rfl))

theorem overlay_nil {base : Setting} : base.overlay [] = base := rfl

/-- The settings of all layers. -/
def layered (es : Layer) (h : Host) : Setting :=
  ((Setting.overlay .absent exampleLayer).overlay es).overlay (environmentLayer h)

theorem find?_base (hk : k ∈ keys) :
    Entries.find? k (Setting.overlay .absent exampleLayer).entriesOf =
      Entries.find? k exampleLayer := by
  have hv : ∀ v ∈ Entries.find? k exampleLayer, ∀ es, v ≠ .table es := by
    rintro v hv es rfl
    have hplain : ∀ e ∈ exampleLayer, e.2.plain?.isSome = true := by decide
    exact absurd (hplain _ (Entries.mem_of_find? hv)) Bool.false_ne_true
  rw [find?_overlay_plain hk (says_exampleLayer hk) hv]
  exact Option.or_none

/-- A value that is no table is the highest one given. -/
theorem find?_layered (ha : Entries.Ascending es) (hf : FileSays es w) (hk : k ∈ keys)
    {o : Option Setting} (henv : Says (environmentLayer h) k o)
    (hv : ∀ v ∈ o, ∀ es, v ≠ .table es)
    (hfile : o = none → ∀ v ∈ Entries.find? k es, ∀ es', v ≠ .table es') :
    Entries.find? k (layered es h).entriesOf =
      o.or ((Entries.find? k es).or (Entries.find? k exampleLayer)) := by
  rw [layered, find?_overlay_plain hk henv hv]
  cases o with
  | some v => rfl
  | none =>
    rw [Option.none_or, Option.none_or, find?_overlay_plain hk (hf.says_file ha hk) (hfile rfl),
      find?_base hk]

theorem EnvironmentSays.variableSetting_number (he : EnvironmentSays h w) (k : NumberKey) :
    (h.envValue? k.variableName).map variableSetting = (w.inEnvironment k).map .integer := by
  have hk := he.number k
  cases hs : h.envValue? k.variableName with
  | none =>
    cases hi : w.inEnvironment k with
    | none => rfl
    | some i => simp [hs, hi] at hk
  | some s =>
    cases hi : w.inEnvironment k with
    | none => simp [hs, hi] at hk
    | some i =>
      have hsigned : signed? s = some i := by simpa [hs, hi] using hk
      rw [Option.map_some, Option.map_some, variableSetting_of_signed? hsigned]

theorem NumberKey.find?_exampleLayer (k : NumberKey) :
    Entries.find? k.name exampleLayer = some (.integer k.builtIn) := by
  cases k <;> rfl

theorem find?_number (ha : Entries.Ascending es) (hf : FileSays es w) (he : EnvironmentSays h w)
    (k : NumberKey) :
    Entries.find? k.name (layered es h).entriesOf = some (.integer (w.number k)) := by
  have hinteger : ∀ {o : Option Int}, ∀ v ∈ o.map Setting.integer, ∀ es, v ≠ .table es := by
    rintro o v hv es rfl
    simp at hv
  have henv := he.says_number k
  rw [he.variableSetting_number] at henv
  have hunset : (w.inEnvironment k).map Setting.integer = none → w.inEnvironment k = none :=
    Option.map_eq_none_iff.mp
  have hmerged := find?_layered ha hf k.name_mem_keys henv hinteger fun h => by
    rw [hf.number k (hunset h)]
    exact hinteger
  rw [hmerged, k.find?_exampleLayer, Said.number]
  cases hk : w.inEnvironment k with
  | some i => rfl
  | none =>
    rw [hf.number k hk]
    cases w.inFile k <;> rfl

theorem find?_isolation (ha : Entries.Ascending es) (hf : FileSays es w)
    (he : EnvironmentSays h w) :
    Entries.find? "isolation" (layered es h).entriesOf = some (.text w.isolation.name) := by
  have htext : ∀ {o : Option Isolation}, ∀ v ∈ o.map fun i => Setting.text i.name,
      ∀ es, v ≠ .table es := by
    rintro o v hv es rfl
    simp at hv
  have henv := he.says_isolation
  rw [he.isolation, Option.map_map] at henv
  have hsetting : variableSetting ∘ Isolation.name = fun i => .text i.name :=
    funext variableSetting_isolation
  rw [hsetting] at henv
  have hmerged := find?_layered ha hf (by decide) henv htext fun h => by
    rw [hf.isolation (Option.map_eq_none_iff.mp h)]
    exact htext
  rw [hmerged, Said.isolation]
  cases hi : w.isolationInEnvironment with
  | some i => rfl
  | none =>
    rw [hf.isolation hi]
    cases w.isolationInFile <;> rfl

/-- Of keys that only a file may set, what the file says counts. -/
theorem find?_file (ht : (Setting.table es).Tidy) (hf : FileSays es w) (he : EnvironmentSays h w)
    (hk : k ∈ keys) (hnumber : ∀ k' : NumberKey, k'.name ≠ k) (hisolation : "isolation" ≠ k)
    (hexample : Entries.find? k exampleLayer = none) :
    Entries.find? k (layered es h).entriesOf = Entries.find? k es := by
  obtain _ | _ | _ | _ | _ | _ | ⟨ha, hvalues⟩ := ht
  have henv := he.says_nothing hk hnumber hisolation
  rw [layered, find?_overlay_plain hk henv nofun, Option.none_or,
    find?_overlay (segments_of_mem hk) (hf.says_file ha hk), find?_base hk, hexample]
  cases hv : Entries.find? k es with
  | none => rfl
  | some v => exact congrArg some (Setting.mergeInto_none (hvalues _ (Entries.mem_of_find? hv)))

theorem find?_interpreters (ht : (Setting.table es).Tidy) (hf : FileSays es w)
    (he : EnvironmentSays h w) :
    Entries.find? "interpreters" (layered es h).entriesOf = Entries.find? "interpreters" es :=
  find?_file ht hf he (by decide) (fun k => by cases k <;> decide) (by decide) rfl

theorem find?_root (ht : (Setting.table es).Tidy) (hf : FileSays es w) (he : EnvironmentSays h w) :
    Entries.find? "workspace_root" (layered es h).entriesOf = none :=
  (find?_file ht hf he (by decide) (fun k => by cases k <;> decide) (by decide) rfl).trans hf.noRoot

theorem Said.number_le (hf : FileSays es w) (he : EnvironmentSays h w) (k : NumberKey) :
    w.number k ≤ Int64.maxValue.toInt := by
  rw [Said.number]
  cases hi : w.inEnvironment k with
  | some i =>
    obtain ⟨s, -, hs⟩ : ∃ s, h.envValue? k.variableName = some s ∧ signed? s = some i := by
      have hk := he.number k
      rw [hi, Option.map_some] at hk
      exact Option.map_eq_some_iff.mp hk
    exact (digits_of_signed? hs).2
  | none =>
    cases hj : w.inFile k with
    | some j => exact hf.bounded k j hj
    | none => cases k <;> decide

theorem toWord?_integer (hi : i ≤ Int64.maxValue.toInt) :
    (Setting.integer i).toWord? = if 0 ≤ i then some (UInt64.ofNat i.toNat) else none := by
  have hlt : i < UInt64.size := Int.lt_of_le_of_lt hi (by decide)
  simp only [Setting.toWord?, hlt, decide_true, Bool.and_true, decide_eq_true_eq]

theorem pick_number (ha : Entries.Ascending es) (hf : FileSays es w) (he : EnvironmentSays h w)
    (k : NumberKey) {builtIn : UInt64} :
    pick Setting.toWord? (layered es h).entriesOf k.name builtIn =
      if 0 ≤ w.number k then some (w.word k) else none := by
  rw [pick, find?_number ha hf he k]
  exact toWord?_integer (Said.number_le hf he k)

theorem ofName?_name (i : Isolation) : Isolation.ofName? i.name = some i := by
  cases i <;> decide

/-- The settings of all layers are understood unless a number is negative. -/
theorem ofEntries?_layered (ht : (Setting.table es).Tidy) (hf : FileSays es w)
    (he : EnvironmentSays h w) :
    ((∀ k, 0 ≤ w.number k) → ofEntries? (layered es h).entriesOf = some w.config) ∧
      (∀ k, w.number k < 0 → ofEntries? (layered es h).entriesOf = none) := by
  have ha : Entries.Ascending es := by
    cases ht
    assumption
  have hroot : pick rootOf? (layered es h).entriesOf "workspace_root" empty.workspaceRoot =
      some none := by
    rw [pick, find?_root ht hf he]
    rfl
  have hisolation : pick isolationOf? (layered es h).entriesOf "isolation" empty.isolation =
      some w.isolation := by
    rw [pick, find?_isolation ha hf he]
    exact ofName?_name _
  have hinterpreters : pick interpretersOf? (layered es h).entriesOf "interpreters"
      empty.interpreters = some w.interpreters := by
    rw [pick, find?_interpreters ht hf he, ← hf.interpreters]
    cases Entries.find? "interpreters" es <;> rfl
  have hdefault : pick Setting.toWord? (layered es h).entriesOf "default_timeout_ms"
      empty.defaultTimeoutMs = _ := pick_number ha hf he .defaultTimeout
  have hmax : pick Setting.toWord? (layered es h).entriesOf "max_timeout_ms"
      empty.maxTimeoutMs = _ := pick_number ha hf he .maxTimeout
  have hconcurrency : pick Setting.toWord? (layered es h).entriesOf "max_concurrent"
      empty.maxConcurrent = _ := pick_number ha hf he .concurrency
  have hlines : pick Setting.toWord? (layered es h).entriesOf "max_log_lines"
      empty.maxLogLines = _ := pick_number ha hf he .logLines
  constructor
  · intro hnonneg
    simp [ofEntries?, hroot, hdefault, hmax, hconcurrency, hlines, hisolation, hinterpreters,
      hnonneg, Said.config]
  · intro k hk
    cases k <;> simp [ofEntries?, hroot, hdefault, hmax, hconcurrency, hlines, Int.not_le.mpr hk]

theorem Said.toNat_word (hf : FileSays es w) (he : EnvironmentSays h w) (k : NumberKey) :
    (w.word k).toNat = (w.number k).toNat := by
  have hle : w.number k ≤ 9223372036854775807 := Said.number_le hf he k
  rw [Said.word]
  exact UInt64.toNat_ofNat_of_lt' (by rw [UInt64.size]; omega)

theorem Said.word_pos (hf : FileSays es w) (he : EnvironmentSays h w) (k : NumberKey) :
    0 < w.word k ↔ 0 < w.number k := by
  rw [UInt64.lt_iff_toNat_lt, Said.toNat_word hf he, UInt64.toNat_zero, Int.lt_toNat, Nat.cast_zero]

theorem Said.word_le (hf : FileSays es w) (he : EnvironmentSays h w) {k k' : NumberKey}
    (hk : 0 ≤ w.number k') : w.word k ≤ w.word k' ↔ w.number k ≤ w.number k' := by
  rw [UInt64.le_iff_toNat_le, Said.toNat_word hf he, Said.toNat_word hf he]
  omega

/-- What validation asks of the configuration is what it asks of the values. -/
theorem Said.valid_iff (hf : FileSays es w) (he : EnvironmentSays h w) :
    w.Valid ↔ (∀ k, 0 ≤ w.number k) ∧ w.config.Valid := by
  constructor
  · rintro ⟨hdefault, hmax, hle, hconcurrency, hlines, hentries⟩
    refine ⟨fun k => ?_, ?_, ?_, ?_, ?_, hentries⟩
    · cases k <;> omega
    · exact (Said.word_pos hf he _).mpr hdefault
    · exact (Said.word_pos hf he _).mpr hmax
    · exact (Said.word_le hf he hmax.le).mpr hle
    · exact (Said.word_pos hf he _).mpr hconcurrency
  · rintro ⟨hnonneg, hdefault, hmax, hle, hconcurrency, hentries⟩
    refine ⟨?_, ?_, ?_, ?_, hnonneg _, hentries⟩
    · exact (Said.word_pos hf he _).mp hdefault
    · exact (Said.word_pos hf he _).mp hmax
    · exact (Said.word_le hf he (hnonneg _)).mp hle
    · exact (Said.word_pos hf he _).mp hconcurrency

/-- The entries of the file that is named, if one is. -/
def fileEntries (h : Host) : Option String → Except Error Layer
  | none => .ok []
  | some path => fileLayer h path

theorem tidy_fileEntries (hes : fileEntries h path = .ok es) : (Setting.table es).Tidy := by
  cases path with
  | none =>
    cases hes
    exact .table List.Pairwise.nil nofun
  | some path =>
    have hread : ∃ text, readLayer text = .ok es := by
      rw [fileEntries, fileLayer] at hes
      split at hes
      · cases hes
      · split at hes
        · cases hes
        · exact ⟨_, hes⟩
    obtain ⟨text, htext⟩ := hread
    rw [readLayer] at htext
    split at htext
    · rename_i hsome
      cases htext
      exact Toml.tidy_read hsome
    · cases htext

theorem load_of_base {base : Layer} (hbase : readLayer exampleText = .ok base)
    (hes : fileEntries h path = .ok es) : load h path =
      ofSettings (((Setting.overlay .absent base).overlay es).overlay (environmentLayer h)) := by
  cases path with
  | none =>
    obtain rfl : [] = es := Except.ok.inj hes
    rw [load, hbase, overlay_nil]
    rfl
  | some path =>
    have hfile : fileLayer h path = .ok es := hes
    rw [load, hbase]
    simp only [hfile]
    rfl

theorem load_eq (hes : fileEntries h path = .ok es) : load h path = ofSettings (layered es h) :=
  load_of_base readLayer_exampleText hes

/-- A file that cannot be read is nothing to load from. -/
theorem exists_fileEntries {c : Config} (hc : load h path = .ok c) :
    ∃ es, fileEntries h path = .ok es := by
  cases path with
  | none => exact ⟨[], rfl⟩
  | some path =>
    cases hes : fileLayer h path with
    | error e =>
      rw [load, readLayer_exampleText] at hc
      simp [hes, bind, Except.bind] at hc
    | ok es => exact ⟨es, hes⟩

/-- The layers are taken key by key: of each number and of the isolation the environment's value
counts, or else the file's, or else the built-in one, and the commands are those of the file.
Whether loading succeeds is told from these values alone, whatever was said of a key in a lower
layer. -/
theorem load_layers (hes : fileEntries h path = .ok es) (hf : FileSays es w)
    (he : EnvironmentSays h w) :
    (w.Valid → load h path = .ok w.config) ∧
      (¬ w.Valid → ∃ e, load h path = .error e) ∧
      ((∀ k, 0 ≤ w.number k) → 0 < w.number .maxTimeout →
        w.number .maxTimeout < w.number .defaultTimeout →
        load h path = .error (.invalid (.defaultAboveMax (w.word .defaultTimeout)
          (w.word .maxTimeout)))) := by
  have ht := tidy_fileEntries hes
  obtain ⟨hsome, hnone⟩ := ofEntries?_layered ht hf he
  rw [load_eq hes, ofSettings]
  refine ⟨fun hv => ?_, fun hv => ?_, fun hnonneg hmax hlt => ?_⟩
  · obtain ⟨hnonneg, hvalid⟩ := (Said.valid_iff hf he).mp hv
    simp only [hsome hnonneg, defect?_eq_none.mpr hvalid]
  · by_cases hnonneg : ∀ k, 0 ≤ w.number k
    · have hdefect : w.config.defect? ≠ none := fun hn =>
        hv ((Said.valid_iff hf he).mpr ⟨hnonneg, defect?_eq_none.mp hn⟩)
      obtain ⟨d, hd⟩ := Option.ne_none_iff_exists'.mp hdefect
      exact ⟨.invalid d, by simp only [hsome hnonneg, hd]⟩
    · obtain ⟨k, hk⟩ := not_forall.mp hnonneg
      exact ⟨.unreadable, by simp only [hnone k (Int.not_le.mp hk)]⟩
  · have hwordMax : 0 < w.config.maxTimeoutMs := (Said.word_pos hf he _).mpr hmax
    have hwordDefault : 0 < w.config.defaultTimeoutMs :=
      (Said.word_pos hf he _).mpr (hmax.trans hlt)
    have hwordLt : w.config.maxTimeoutMs < w.config.defaultTimeoutMs :=
      UInt64.not_le.mp fun hle => (not_le.mpr hlt) ((Said.word_le hf he hmax.le).mp hle)
    have hdefect : w.config.defect? =
        some (.defaultAboveMax w.config.defaultTimeoutMs w.config.maxTimeoutMs) := by
      rw [defect?, if_neg (fun h => word_beq_zero.mp h hwordDefault),
        if_neg (fun h => word_beq_zero.mp h hwordMax), if_pos hwordLt]
    simp only [hsome hnonneg, hdefect]
    rfl

/-- Two values of this file are no valid ones, and one of them is no number. -/
def mixedText : String :=
  "default_timeout_ms = 0\nmax_concurrent = \"many\"\nmax_timeout_ms = 1000\n[interpreters.python]\ncommand = [\"python3\"]\n"

/-- The environment sets what is invalid in the file. -/
def mixedHost : Host where
  files := ⟨[(["host.toml"], .file mixedText false)]⟩
  cwd := []
  env := .ofList [
    ("FUNCBOX_DEFAULT_TIMEOUT_MS", "900"),
    ("FUNCBOX_ISOLATION", "scrubbed-env"),
    ("FUNCBOX_MAX_CONCURRENT", "2"),
    ("PATH", "/bin")]

def mixedLayer : Layer := [
  ("default_timeout_ms", .integer 0),
  ("interpreters", .table [("python", .table [("command", .list [.text "python3"])])]),
  ("max_concurrent", .text "many"),
  ("max_timeout_ms", .integer 1000)]

def mixedSaid : Said where
  inFile
    | .maxTimeout => some 1000
    | _ => none
  inEnvironment
    | .defaultTimeout => some 900
    | .concurrency => some 2
    | _ => none
  isolationInFile := none
  isolationInEnvironment := some .scrubbedEnv
  interpreters := .ofList [("python", ["python3"])]

theorem fileEntries_mixed : fileEntries mixedHost (some "host.toml") = .ok mixedLayer := by
  have hfind : findFile? mixedHost "host.toml" = some "host.toml" := by decide +kernel
  have hread : mixedHost.read "host.toml" = .ok mixedText := by decide +kernel
  have hmark : mixedText.startsWith "\ufeff" = false := by simp [mixedText]
  have htoml : Toml.read mixedText = some mixedLayer := by cbv
  simp only [fileEntries, fileLayer, hfind, hread, hmark, readLayer, htoml, Bool.false_eq_true,
    if_false]

theorem fileSays_mixed : FileSays mixedLayer mixedSaid where
  number k h := by cases k <;> first | rfl | cases h
  bounded k i hi := by
    cases k <;> cases hi
    decide
  isolation := nofun
  interpreters := by decide
  noRoot := rfl
  plain := by
    have hkeys : ∀ e ∈ mixedLayer, e.1 ∈ keys := by decide
    exact fun e he _ => topKey_of_mem (hkeys e he)

theorem environmentSays_mixed : EnvironmentSays mixedHost mixedSaid where
  number k := by cases k <;> cbv
  isolation := by cbv
  plain := by
    have hentries : mixedHost.env.entries = [
        (NumberKey.defaultTimeout.variableName, "900"), (isolationVariable, "scrubbed-env"),
        (NumberKey.concurrency.variableName, "2"), ("PATH", "/bin")] := by decide
    have hpath : variableKey? "PATH" = none := by cbv
    rw [hentries]
    intro e he key hkey _
    simp only [List.mem_cons, List.not_mem_nil, or_false] at he
    obtain rfl | rfl | rfl | rfl := he
    · exact .inl ⟨.defaultTimeout, rfl⟩
    · exact .inr rfl
    · exact .inl ⟨.concurrency, rfl⟩
    · cases hpath.symm.trans hkey

theorem load_mixed : load mixedHost (some "host.toml") =
    .ok ⟨none, 900, 1000, 2, 1000, .scrubbedEnv, .ofList [("python", ["python3"])]⟩ := by
  have hvalid : mixedSaid.Valid := by
    refine ⟨by decide, by decide, by decide, by decide, by decide, fun e he => ?_⟩
    have hentries : mixedSaid.interpreters.entries = [("python", ["python3"])] := rfl
    obtain rfl := List.mem_singleton.mp (hentries ▸ he)
    exact ⟨⟨.python, rfl⟩, ⟨"python3", [], rfl, by decide⟩⟩
  exact (load_layers fileEntries_mixed fileSays_mixed environmentSays_mixed).1 hvalid

end HandlerHost.Config
