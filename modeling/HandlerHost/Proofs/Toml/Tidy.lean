import HandlerHost.Proofs.Config.Merge
import HandlerHost.Toml.Document

/-!
Every table of a document has its keys once and in order. Drafts are tidy while it is being read,
whatever sections, dotted keys and tables between braces add to them.
-/
namespace HandlerHost.Toml

open Config (Setting)
open Text (Entries)

variable {k : String} {d : Draft} {es es' : Entries Draft} {path : List String} {s s' : Sections}
  {cs r : List Char} {fuel depth : Nat} {v : Setting}

namespace Draft

/-- A draft that settles as a tidy setting, and does so after its tables have grown. -/
inductive Tidy : Draft → Prop
  | value {s : Setting} (h : s.Tidy) : Tidy (.value s)
  | table {origin : Origin} {es : List (String × Draft)} (ha : Entries.Ascending es)
      (h : ∀ e ∈ es, Tidy e.2) : Tidy (.table origin es)
  | tables {earlier : List Setting} {last : List (String × Draft)} (ha : Entries.Ascending last)
      (h : ∀ e ∈ last, Tidy e.2) : Tidy (.tables earlier last)

/-- The same of the entries of a table. -/
structure TidyEntries (es : Entries Draft) : Prop where
  ascending : es.Ascending
  each : ∀ e ∈ es, e.2.Tidy

theorem tidyEntries_nil : TidyEntries [] := ⟨List.Pairwise.nil, nofun⟩

theorem TidyEntries.insert (h : TidyEntries es) (hd : d.Tidy) : TidyEntries (es.insert k d) := by
  refine ⟨Entries.ascending_insert h.ascending, ?_⟩
  intro e he
  rcases Entries.mem_insert he with rfl | he
  · exact hd
  · exact h.each e he

theorem TidyEntries.find? (h : TidyEntries es) (hf : es.find? k = some d) : d.Tidy :=
  h.each _ (Entries.mem_of_find? hf)

theorem settleAll_eq_map : settleAll es = es.map fun e => (e.1, e.2.settle) := by
  induction es with
  | nil => rfl
  | cons e es ih => rw [settleAll, ih, List.map_cons]

theorem tidy_settleAll (ha : Entries.Ascending es) (h : ∀ e ∈ es, e.2.settle.Tidy) :
    (Setting.table (settleAll es)).Tidy := by
  rw [settleAll_eq_map]
  refine .table (List.pairwise_map.mpr ha) ?_
  intro e he
  obtain ⟨e', he', rfl⟩ := List.mem_map.mp he
  exact h e' he'

theorem tidy_settle (h : d.Tidy) : d.settle.Tidy := by
  induction h with
  | value h => exact h
  | table ha _ ih => exact tidy_settleAll ha ih
  | tables _ _ _ => exact .list

/-- Growth at the end of a path keeps tidy what is around it. -/
theorem tidy_alter {dotted : Bool} {change : Option Draft → Option Draft}
    (hc : ∀ old d, (∀ o, old = some o → o.Tidy) → change old = some d → d.Tidy)
    (h : TidyEntries es) (ha : alter dotted change path es = some es') : TidyEntries es' := by
  induction path generalizing es es' with
  | nil => cases ha
  | cons k path ih =>
    cases path with
    | nil =>
      rw [alter] at ha
      obtain ⟨d, hd, rfl⟩ := Option.map_eq_some_iff.mp ha
      exact h.insert (hc _ d (fun o ho => h.find? ho) hd)
    | cons k' path =>
      rw [alter] at ha
      · split at ha
        · obtain ⟨sub, hs, rfl⟩ := Option.map_eq_some_iff.mp ha
          have hsub := ih tidyEntries_nil hs
          exact h.insert (.table hsub.ascending hsub.each)
        · rename_i origin sub hf
          split at ha
          · cases ha
          · obtain ⟨sub', hs, rfl⟩ := Option.map_eq_some_iff.mp ha
            have hold : TidyEntries sub := by
              cases h.find? hf with
              | table ha h => exact ⟨ha, h⟩
            have hsub := ih hold hs
            exact h.insert (.table hsub.ascending hsub.each)
        · rename_i earlier last hf
          split at ha
          · cases ha
          · obtain ⟨last', hs, rfl⟩ := Option.map_eq_some_iff.mp ha
            have hold : TidyEntries last := by
              cases h.find? hf with
              | tables ha h => exact ⟨ha, h⟩
            have hlast := ih hold hs
            exact h.insert (.tables hlast.ascending hlast.each)
        · cases ha
      · simp

theorem tidy_add (h : TidyEntries es) (hv : v.Tidy) (ha : add path v es = some es') :
    TidyEntries es' := by
  refine tidy_alter ?_ h ha
  intro old d _ hd
  split at hd
  · cases hd
    exact .value hv
  · cases hd

end Draft

open Draft (TidyEntries tidyEntries_nil tidy_add tidy_alter tidy_settleAll)

theorem tidy_scalar (h : scalar? cs = some v) : v.Tidy := by
  unfold scalar? at h
  split at h
  · cases h
    exact .bool
  · cases h
    exact .bool
  · split at h
    · cases h
      exact .integer
    · cases h
      exact .real
    · cases h
      exact .text
    · cases h

/-- What the members of a table between braces add is tidy, and so is every value. -/
theorem tidy_value_members (fuel : Nat) :
    (∀ depth cs v r, value? fuel depth cs = some (v, r) → v.Tidy) ∧
      ∀ depth acc cs es r, TidyEntries acc → members? fuel depth acc cs = some (es, r) →
        TidyEntries es := by
  induction fuel with
  | zero =>
    refine ⟨?_, ?_⟩
    · intro depth cs v r h
      rw [value?] at h
      cases h
    · intro depth acc cs es r _ h
      rw [members?] at h
      cases h
  | succ fuel ih =>
    obtain ⟨ihv, ihm⟩ := ih
    refine ⟨?_, ?_⟩
    · intro depth cs v r h
      unfold value? at h
      split at h
      · cases h
      · cases h
      · cases h
      · cases h
      · obtain ⟨p, -, hp⟩ := Option.map_eq_some_iff.mp h
        cases hp
        exact .list
      · rename_i hfuel
        obtain rfl := Nat.succ.inj hfuel
        obtain ⟨⟨es, r'⟩, hm, hp⟩ := Option.map_eq_some_iff.mp h
        cases hp
        have hes := ihm _ _ _ _ _ tidyEntries_nil hm
        exact tidy_settleAll hes.ascending fun e he => Draft.tidy_settle (hes.each e he)
      · split at h
        · obtain ⟨p, -, hp⟩ := Option.map_eq_some_iff.mp h
          cases hp
          exact .text
        · obtain ⟨w, hw, hp⟩ := Option.map_eq_some_iff.mp h
          cases hp
          exact tidy_scalar hw
    · intro depth acc cs es r hacc h
      unfold members? at h
      split at h
      · cases h
        exact hacc
      · split at h
        · split at h
          · cases h
          · rename_i hv
            split at h
            · cases h
            · rename_i hadd
              have hacc := tidy_add hacc (ihv _ _ _ _ hv) hadd
              split at h
              · exact ihm _ _ _ _ _ hacc h
              · cases h
                exact hacc
              · cases h
        · cases h

namespace Sections

/-- A document under construction. -/
structure Tidy (s : Sections) : Prop where
  root : TidyEntries s.root
  current : TidyEntries s.current

theorem tidy_close (h : s.Tidy) (hc : s.close = some es) : TidyEntries es := by
  unfold close at hc
  split at hc
  · cases hc
    exact h.current
  · split at hc
    · refine tidy_alter ?_ h.root hc
      intro old d _ hd
      split at hd
      · cases hd
        exact .tables h.current.ascending h.current.each
      · cases hd
        exact .tables h.current.ascending h.current.each
      · cases hd
    · refine tidy_alter ?_ h.root hc
      intro old d _ hd
      cases hd
      exact .table h.current.ascending h.current.each

theorem tidy_find? (h : TidyEntries es) (hf : find? path es = some d) : d.Tidy := by
  induction path generalizing es with
  | nil => cases hf
  | cons k path ih =>
    cases path with
    | nil => exact h.find? hf
    | cons k' path =>
      rw [find?] at hf
      · split at hf
        · rename_i hd
          cases h.find? hd with
          | table ha h => exact ih ⟨ha, h⟩ hf
        · rename_i hd
          cases h.find? hd with
          | tables ha h => exact ih ⟨ha, h⟩ hf
        · cases hf
      · simp

theorem tidy_openTable (h : s.Tidy) (ho : s.openTable path = some s') : s'.Tidy := by
  obtain ⟨root, hr, ho⟩ := Option.bind_eq_some_iff.mp ho
  have hroot := tidy_close h hr
  split at ho
  · cases ho
    exact ⟨hroot, tidyEntries_nil⟩
  · rename_i hf
    cases ho
    cases tidy_find? hroot hf with
    | table ha h => exact ⟨hroot, ha, h⟩
  · cases ho

theorem tidy_openItem (h : s.Tidy) (ho : s.openItem path = some s') : s'.Tidy := by
  obtain ⟨root, hr, ho⟩ := Option.bind_eq_some_iff.mp ho
  have hroot := tidy_close h hr
  split at ho
  · cases ho
    exact ⟨hroot, tidyEntries_nil⟩
  · cases ho
    exact ⟨hroot, tidyEntries_nil⟩
  · cases ho

end Sections

theorem tidy_line (h : s.Tidy) (hl : line? s cs = some (s', r)) : s'.Tidy := by
  unfold line? at hl
  split at hl
  · obtain ⟨p, -, hl⟩ := Option.bind_eq_some_iff.mp hl
    obtain ⟨t, ht, hl⟩ := Option.bind_eq_some_iff.mp hl
    obtain ⟨r', -, hl⟩ := Option.bind_eq_some_iff.mp hl
    cases hl
    exact Sections.tidy_openItem h ht
  · obtain ⟨p, -, hl⟩ := Option.bind_eq_some_iff.mp hl
    obtain ⟨t, ht, hl⟩ := Option.bind_eq_some_iff.mp hl
    obtain ⟨r', -, hl⟩ := Option.bind_eq_some_iff.mp hl
    cases hl
    exact Sections.tidy_openTable h ht
  · split at hl
    · obtain ⟨⟨v, r'⟩, hv, hl⟩ := Option.bind_eq_some_iff.mp hl
      obtain ⟨current, hadd, hl⟩ := Option.bind_eq_some_iff.mp hl
      obtain ⟨r'', -, hl⟩ := Option.bind_eq_some_iff.mp hl
      cases hl
      exact ⟨h.root, tidy_add h.current ((tidy_value_members _).1 _ _ _ _ hv) hadd⟩
    · cases hl

theorem tidy_lines (h : s.Tidy) (hl : lines? fuel s cs = some s') : s'.Tidy := by
  induction fuel generalizing s cs with
  | zero =>
    rw [lines?] at hl
    split at hl
    · cases hl
      exact h
    · cases hl
  | succ fuel ih =>
    rw [lines?] at hl
    split at hl
    · cases hl
      exact h
    · split at hl
      · cases hl
      · rename_i hline
        exact ih (tidy_line h hline) hl

/-- What a document says is tidy. -/
theorem tidy_read {text : String} {es : List (String × Setting)} (h : read text = some es) :
    (Setting.table es).Tidy := by
  obtain ⟨s, hs, h⟩ := Option.bind_eq_some_iff.mp h
  obtain ⟨root, hr, h⟩ := Option.bind_eq_some_iff.mp h
  cases h
  have hstart : Sections.start.Tidy := ⟨tidyEntries_nil, tidyEntries_nil⟩
  have hroot := Sections.tidy_close (tidy_lines hstart hs) hr
  exact tidy_settleAll hroot.ascending fun e he => Draft.tidy_settle (hroot.each e he)

end HandlerHost.Toml
