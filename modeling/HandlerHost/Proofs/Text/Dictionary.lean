import HandlerHost.Text.Dictionary

/-! What is found in text-keyed entries, and entries that stand in order already. -/
namespace HandlerHost.Text

variable {β : Type} {j k : String} {v : β} {es acc : Entries β}

namespace Entries

@[simp] theorem find?_nil : find? k ([] : Entries β) = none := rfl

@[simp] theorem find?_cons {e : String × β} :
    find? k (e :: es) = if k = e.1 then some e.2 else find? k es := by
  obtain ⟨k', v'⟩ := e
  by_cases h : k = k'
  · simp [find?, h]
  · have hb : (k == k') = false := by simpa using h
    simp [find?, h, List.lookup_cons, hb]

/-- An inserted entry is found, and every other one is as before. -/
theorem find?_insert : find? j (insert k v es) = if j = k then some v else find? j es := by
  induction es with
  | nil => simp [insert]
  | cons e es ih =>
    obtain ⟨k', v'⟩ := e
    simp only [insert]
    split
    · simp
    · split
      · rename_i hk
        subst hk
        by_cases hj : j = k <;> simp [hj]
      · rename_i hk
        by_cases hj : j = k'
        · have hne : j ≠ k := fun h => hk (h.symm.trans hj)
          simp [hj, Ne.symm hk]
        · simp [hj, ih]

/-- An inserted entry does not matter where its key is passed over. -/
theorem filterMap_insert {γ : Type} {f : String × β → Option γ} (hf : ∀ v, f (k, v) = none) :
    (insert k v es).filterMap f = es.filterMap f := by
  induction es with
  | nil => simp [insert, hf]
  | cons e es ih =>
    obtain ⟨k', v'⟩ := e
    rw [insert]
    split
    · rw [List.filterMap_cons_none (hf v)]
    · split
      · rename_i hk
        subst hk
        rw [List.filterMap_cons_none (hf v), List.filterMap_cons_none (hf v')]
      · rw [List.filterMap_cons, List.filterMap_cons, ih]

/-- What is found is an entry. -/
theorem mem_of_find? (h : find? k es = some v) : (k, v) ∈ es := by
  induction es with
  | nil => cases h
  | cons e es ih =>
    rw [find?_cons] at h
    split at h
    · rename_i hk
      obtain rfl := Option.some.inj h
      exact hk ▸ List.mem_cons_self
    · exact List.mem_cons_of_mem _ (ih h)

theorem find?_eq_none (h : ∀ e ∈ es, e.1 ≠ k) : find? k es = none := by
  cases hf : find? k es with
  | none => rfl
  | some v => exact absurd rfl (h _ (mem_of_find? hf))

/-- With keys that ascend every entry is found. -/
theorem find?_eq_some (h : Ascending es) : find? k es = some v ↔ (k, v) ∈ es := by
  refine ⟨mem_of_find?, fun hmem => ?_⟩
  induction es with
  | nil => cases hmem
  | cons e es ih =>
    obtain ⟨hhead, htail⟩ := List.pairwise_cons.mp h
    rw [find?_cons]
    rcases List.mem_cons.mp hmem with rfl | hmem
    · exact if_pos rfl
    · have hne : k ≠ e.1 := fun he => String.lt_irrefl _ (he ▸ hhead _ hmem)
      rw [if_neg hne, ih htail hmem]

/-- An entry whose key comes after all others is put last. -/
theorem insert_eq_append (h : ∀ e ∈ es, e.1 < k) : insert k v es = es ++ [(k, v)] := by
  induction es with
  | nil => rfl
  | cons e es ih =>
    obtain ⟨k', v'⟩ := e
    have hk : k' < k := h (k', v') List.mem_cons_self
    have hn : ¬ k < k' := fun h' => String.lt_irrefl k (String.lt_trans h' hk)
    have hne : k ≠ k' := fun h' => String.lt_irrefl k (h' ▸ hk)
    simp [insert, hn, hne, ih fun e he => h e (List.mem_cons_of_mem _ he)]

theorem foldl_insert_of_ascending (h : Ascending (acc ++ es)) :
    es.foldl (fun acc e => insert e.1 e.2 acc) acc = acc ++ es := by
  induction es generalizing acc with
  | nil => simp
  | cons e es ih =>
    have hlt : ∀ a ∈ acc, a.1 < e.1 := by
      intro a ha
      exact (List.pairwise_append.mp h).2.2 a ha e List.mem_cons_self
    rw [List.foldl_cons, insert_eq_append hlt, ih (by simpa using h)]
    simp

/-- Entries in order are kept as they are. -/
theorem ofList_of_ascending (h : Ascending es) : ofList es = es := by
  have hf : es.foldl (fun acc e => insert e.1 e.2 acc) [] = [] ++ es := foldl_insert_of_ascending h
  exact hf

section Convert

variable {γ : Type} {f : β → Option γ}

/-- Entries whose values are converted, or left out where there is nothing to convert to. -/
def convert (f : β → Option γ) (es : Entries β) : Entries γ :=
  es.filterMap fun e => (f e.2).map fun w => (e.1, w)

theorem ascending_convert (h : Ascending es) : Ascending (convert f es) := by
  refine List.Pairwise.filterMap _ ?_ h
  intro a b hab x hx y hy
  obtain ⟨w, -, rfl⟩ := Option.map_eq_some_iff.mp hx
  obtain ⟨z, -, rfl⟩ := Option.map_eq_some_iff.mp hy
  exact hab

theorem mem_convert {e : String × γ} (h : e ∈ convert f es) : ∃ v, (e.1, v) ∈ es ∧ f v = some e.2 := by
  obtain ⟨a, ha, hf⟩ := List.mem_filterMap.mp h
  obtain ⟨w, hw, rfl⟩ := Option.map_eq_some_iff.mp hf
  exact ⟨a.2, ha, hw⟩

/-- A key's converted value is found where the value was; keys that ascend stand there once. -/
theorem find?_convert (h : Ascending es) : find? k (convert f es) = (find? k es).bind f := by
  induction es with
  | nil => rfl
  | cons e es ih =>
    obtain ⟨hhead, htail⟩ := List.pairwise_cons.mp h
    rw [find?_cons]
    cases hf : f e.2 with
    | some w =>
      have hc : convert f (e :: es) = (e.1, w) :: convert f es := by simp [convert, hf]
      rw [hc, find?_cons, ih htail]
      split <;> simp [hf]
    | none =>
      have hc : convert f (e :: es) = convert f es := by simp [convert, hf]
      rw [hc]
      split
      · rename_i hk
        subst hk
        rw [Option.bind_some, hf]
        refine find?_eq_none fun e' he' heq => ?_
        obtain ⟨v, hv, -⟩ := mem_convert he'
        have hlt : e.1 < e'.1 := hhead (e'.1, v) hv
        exact String.lt_irrefl e.1 (heq ▸ hlt)
      · exact ih htail

end Convert

end Entries

namespace Dictionary

@[ext] theorem ext {d d' : Dictionary β} (h : d.entries = d'.entries) : d = d' := by
  cases d
  cases d'
  cases h
  rfl

theorem entries_foldl_insert {d : Dictionary β} :
    (es.foldl (fun d e => d.insert e.1 e.2) d).entries =
      es.foldl (fun acc e => Entries.insert e.1 e.2 acc) d.entries := by
  induction es generalizing d with
  | nil => rfl
  | cons e es ih => exact ih

theorem entries_ofList : (ofList es).entries = Entries.ofList es := entries_foldl_insert

theorem get?_ofList (h : es.Ascending) : (ofList es).get? k = Entries.find? k es := by
  rw [get?, entries_ofList, Entries.ofList_of_ascending h]

/-- A dictionary is made of its own entries. -/
theorem ofList_entries (d : Dictionary β) : ofList d.entries = d :=
  ext (entries_ofList.trans (Entries.ofList_of_ascending d.ascending))

end Dictionary

end HandlerHost.Text
