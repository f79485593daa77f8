import HandlerHost.Config.KeyPath
import HandlerHost.Proofs.Text.Dictionary

/-!
Layers of settings merged one over the other. Each entry of a layer changes one key of the top
level, so what is found under a key is told from the entries that lead there. A setting whose tables
have every key once and in order is merged into nothing as it is.
-/
namespace HandlerHost.Config

open Text (Entries)

namespace Setting

/-- The keys of every table ascend. What is in lists does not matter: lists are never merged. -/
inductive Tidy : Setting → Prop
  | absent : Tidy .absent
  | text {s : String} : Tidy (.text s)
  | integer {i : Int} : Tidy (.integer i)
  | real {x : Decimal.Extended} : Tidy (.real x)
  | bool {b : Bool} : Tidy (.bool b)
  | list {items : List Setting} : Tidy (.list items)
  | table {es : List (String × Setting)} (ha : Entries.Ascending es) (h : ∀ e ∈ es, Tidy e.2) :
      Tidy (.table es)

theorem mergeEntries_append {acc es : Entries Setting} (ha : Entries.Ascending (acc ++ es))
    (h : ∀ e ∈ es, mergeInto none e.2 = e.2) : mergeEntries acc es = acc ++ es := by
  induction es generalizing acc with
  | nil => simp [mergeEntries]
  | cons e es ih =>
    obtain ⟨k, s⟩ := e
    have hlt : ∀ a ∈ acc, a.1 < k := by
      intro a ha'
      exact (List.pairwise_append.mp ha).2.2 a ha' _ List.mem_cons_self
    have hnone : Entries.find? k acc = none :=
      Entries.find?_eq_none fun a ha' => String.ne_of_lt (hlt a ha')
    have hs : mergeInto none s = s := h (k, s) List.mem_cons_self
    rw [mergeEntries, hnone, hs, Entries.insert_eq_append hlt, ih]
    · simp
    · simpa using ha
    · exact fun e he => h e (List.mem_cons_of_mem _ he)

/-- Nothing is lost or moved where nothing was before. -/
theorem mergeInto_none {s : Setting} (h : Tidy s) : mergeInto none s = s := by
  induction h with
  | @table es ha _ ih =>
    have hes : mergeEntries [] es = [] ++ es := mergeEntries_append ha ih
    rw [mergeInto, Option.map_none, Option.getD_none, hes, List.nil_append]
  | _ => rfl

/-- What is no table takes the place of what was there. -/
theorem mergeInto_of_ne {s : Setting} {old : Option Setting}
    (h : ∀ es, s ≠ .table es) : mergeInto old s = s := by
  cases s with
  | table es => exact absurd rfl (h es)
  | _ => rfl

end Setting

/-- The key of the top level that a key leads to. -/
def topKey (key : String) : String :=
  match segments key with
  | .name k :: _ => k
  | _ => key

theorem exists_segments (key : String) : ∃ path, segments key = .name (topKey key) :: path := by
  have hnamed : ∃ k path, segments key = .name k :: path := by
    unfold segments
    dsimp only
    split
    · exact ⟨key, [], rfl⟩
    · cases Segment.rest? key.toList.length (key.toList.dropWhile Segment.isNameChar) with
      | none => exact ⟨key, [], rfl⟩
      | some path => exact ⟨_, path, rfl⟩
  obtain ⟨k, path, hs⟩ := hnamed
  exact ⟨path, by rw [topKey, hs]⟩

/-- A layer says of a key nothing, or says it once and as a whole. -/
def Says (layer : List (String × Setting)) (k : String) (o : Option Setting) : Prop :=
  layer.filter (fun e => topKey e.1 == k) = (o.map (k, ·)).toList

variable {s s' v : Setting} {layer : List (String × Setting)} {k j key : String}
  {o : Option Setting}

/-- Only the key that an entry leads to changes, and only what was there counts for it. -/
theorem find?_putAt {path : List Segment} (hs : segments key = .name j :: path) :
    Entries.find? k (Setting.putAt v (segments key) (some s)).entriesOf =
      if k = j then some (Setting.putAt v path (Entries.find? j s.entriesOf))
      else Entries.find? k s.entriesOf := by
  rw [hs, Setting.putAt, Setting.entriesOf, Entries.find?_insert]
  rfl

theorem find?_overlay_filter (h : Entries.find? k s.entriesOf = Entries.find? k s'.entriesOf) :
    Entries.find? k (Setting.overlay s layer).entriesOf =
      Entries.find? k (Setting.overlay s' (layer.filter fun e => topKey e.1 == k)).entriesOf := by
  induction layer generalizing s s' with
  | nil => exact h
  | cons e layer ih =>
    obtain ⟨path, hs⟩ := exists_segments e.1
    by_cases hk : topKey e.1 = k
    · rw [List.filter_cons_of_pos (by simpa using hk)]
      apply ih
      rw [find?_putAt hs, find?_putAt hs, if_pos hk.symm, if_pos hk.symm, hk, h]
    · rw [List.filter_cons_of_neg (by simpa using hk)]
      apply ih
      rw [find?_putAt hs, if_neg (Ne.symm hk), h]

/-- A layer changes a key by what it says of it. -/
theorem find?_overlay (hk : segments k = [.name k]) (h : Says layer k o) :
    Entries.find? k (Setting.overlay s layer).entriesOf =
      (o.map (Setting.mergeInto (Entries.find? k s.entriesOf))).or
        (Entries.find? k s.entriesOf) := by
  rw [find?_overlay_filter rfl, h]
  cases o with
  | none => rfl
  | some v =>
    have hput : Setting.overlay s [(k, v)] = Setting.putAt v (segments k) (some s) := rfl
    rw [Option.map_some, Option.toList_some, hput, find?_putAt hk, if_pos rfl]
    rfl

theorem says_none (h : ∀ e ∈ layer, topKey e.1 ≠ k) : Says layer k none :=
  List.filter_eq_nil_iff.mpr fun e he htop => h e he (by simpa using htop)

/-- A layer read from entries with every name once says what is read under one name, if no other
name leads to the same key. -/
theorem says_read {β : Type} {es : Entries β} {key? : String → Option String} {value : β → Setting}
    {name : String} (ha : Entries.Ascending es) (hname : key? name = some k) (hk : topKey k = k)
    (h : ∀ e ∈ es, ∀ j, key? e.1 = some j → topKey j = k → e.1 = name) :
    Says (es.filterMap fun e => (key? e.1).map fun j => (j, value e.2)) k
      ((Entries.find? name es).map value) := by
  induction es with
  | nil => rfl
  | cons e es ih =>
    obtain ⟨name', s⟩ := e
    obtain ⟨hlt, htail⟩ := List.pairwise_cons.mp ha
    obtain ⟨hhead, hlater⟩ := List.forall_mem_cons.mp h
    by_cases heq : name = name'
    · subst heq
      have hrest : Says (es.filterMap fun e => (key? e.1).map fun j => (j, value e.2)) k none := by
        apply says_none
        intro e he htop
        obtain ⟨e', he', hread⟩ := List.mem_filterMap.mp he
        obtain ⟨j, hj, rfl⟩ := Option.map_eq_some_iff.mp hread
        exact String.ne_of_lt (hlt e' he') (hlater e' he' j hj htop).symm
      rw [List.filterMap_cons_some (by rw [hname, Option.map_some]), Says,
        List.filter_cons_of_pos (by simpa using hk), hrest, Entries.find?_cons, if_pos rfl]
      rfl
    · have hfind : Entries.find? name ((name', s) :: es) = Entries.find? name es := by
        rw [Entries.find?_cons, if_neg heq]
      rw [hfind]
      cases hread : key? name' with
      | none =>
        rw [List.filterMap_cons_none (by rw [hread, Option.map_none])]
        exact ih htail hlater
      | some j =>
        have htop : topKey j ≠ k := fun htop => heq (hhead j hread htop).symm
        rw [List.filterMap_cons_some (by rw [hread, Option.map_some]), Says,
          List.filter_cons_of_neg (by simpa using htop)]
        exact ih htail hlater

/-- Entries with every key once say what is found in them, if no other key leads to the same. -/
theorem says_find? (ha : Entries.Ascending layer) (hk : topKey k = k)
    (h : ∀ e ∈ layer, topKey e.1 = k → e.1 = k) : Says layer k (Entries.find? k layer) := by
  have hsays : Says (layer.filterMap fun e => (some e.1).map fun j => (j, id e.2)) k
      ((Entries.find? k layer).map id) := by
    refine says_read ha rfl hk fun e he j hj => ?_
    obtain rfl := Option.some.inj hj
    exact h e he
  simpa using hsays

end HandlerHost.Config
