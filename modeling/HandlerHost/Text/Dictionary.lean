/-!
Text-keyed entries in ascending key order. Texts are ordered by code point, which is also the
order of their UTF-8 bytes. `Entries` works on bare lists; a `Dictionary` carries the order.
-/
namespace HandlerHost.Text

abbrev Entries (β : Type) := List (String × β)

namespace Entries

variable {β : Type}

/-- Keys strictly ascend. -/
def Ascending (es : Entries β) : Prop := es.Pairwise fun a b => a.1 < b.1

/-- An entry of the same key is replaced. -/
def insert (k : String) (v : β) : Entries β → Entries β
  | [] => [(k, v)]
  | (k', v') :: es =>
    if k < k' then (k, v) :: (k', v') :: es
    else if k = k' then (k, v) :: es
    else (k', v') :: insert k v es

def find? (k : String) (es : Entries β) : Option β := es.lookup k

/-- Of entries with one key the last counts. -/
def ofList (es : Entries β) : Entries β := es.foldl (fun acc e => insert e.1 e.2 acc) []

theorem mem_insert {k : String} {v : β} {es : Entries β} {e : String × β}
    (h : e ∈ insert k v es) : e = (k, v) ∨ e ∈ es := by
  induction es with
  | nil => simpa [insert] using h
  | cons a es ih =>
    obtain ⟨k', v'⟩ := a
    simp only [insert] at h
    split at h
    · simpa using h
    · split at h
      · rcases List.mem_cons.1 h with h | h
        · exact .inl h
        · exact .inr (List.mem_cons_of_mem _ h)
      · rcases List.mem_cons.1 h with h | h
        · exact .inr (h ▸ List.mem_cons_self)
        · rcases ih h with h | h
          · exact .inl h
          · exact .inr (List.mem_cons_of_mem _ h)

theorem ascending_insert {k : String} {v : β} {es : Entries β} (h : Ascending es) :
    Ascending (insert k v es) := by
  induction es with
  | nil => simp [insert, Ascending]
  | cons a es ih =>
    obtain ⟨k', v'⟩ := a
    obtain ⟨hhead, htail⟩ := List.pairwise_cons.1 h
    simp only [insert]
    split
    · rename_i hlt
      refine List.pairwise_cons.2 ⟨fun e he => ?_, h⟩
      rcases List.mem_cons.1 he with rfl | he
      · exact hlt
      · exact String.lt_trans hlt (hhead e he)
    · rename_i hle
      split
      · rename_i heq
        subst heq
        exact List.pairwise_cons.2 ⟨hhead, htail⟩
      · rename_i hne
        refine List.pairwise_cons.2 ⟨fun e he => ?_, ih htail⟩
        rcases mem_insert he with rfl | he
        · exact Decidable.byContradiction fun hn =>
            hne (String.le_antisymm (String.not_lt.1 hn) (String.not_lt.1 hle))
        · exact hhead e he

end Entries

/-- A finite map from texts whose entries stand in key order. -/
structure Dictionary (β : Type) where
  entries : Entries β
  ascending : entries.Ascending
deriving DecidableEq

namespace Dictionary

variable {β : Type}

def empty : Dictionary β := ⟨[], List.Pairwise.nil⟩

instance : Inhabited (Dictionary β) := ⟨empty⟩

def insert (d : Dictionary β) (k : String) (v : β) : Dictionary β :=
  ⟨d.entries.insert k v, Entries.ascending_insert d.ascending⟩

def get? (d : Dictionary β) (k : String) : Option β := d.entries.find? k

/-- Of entries with one key the last counts. -/
def ofList (es : Entries β) : Dictionary β := es.foldl (fun d e => d.insert e.1 e.2) empty

end Dictionary

end HandlerHost.Text
