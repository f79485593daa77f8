import HandlerHost.Proofs.Json.Decoding
import HandlerHost.Proofs.Json.Passing
import Mathlib.Data.List.Nodup

/-!
Records and the texts they are read from, member by member. A member of a known name puts its value
into the draft, once; every other member is passed over, if it is well formed. In an array the
items are the fields in their order.
-/
namespace HandlerHost.Json

variable {α δ : Type} {cs tail rest rest' text t gap : List Char} {first : Bool} {b : Budget}
  {k : String} {v : Value} {vs : List Value} {ms : List (String × List Char)} {depth steps : Nat}

/-- The text is a value with blanks around it. -/
def Padded (cs : List Char) (text : String) : Prop :=
  ∃ gap gap', Blank gap ∧ Blank gap' ∧ text.toList = gap ++ cs ++ gap'

/-- An object whose members have these texts for their values. -/
def SpellsObject (ms : List (String × List Char)) (cs : List Char) : Prop :=
  ∃ tail, SpellsItems '\x7d' (SpellsMember Eq) true ms tail ∧ cs = '\x7b' :: tail

/-- An array whose items have these texts. -/
def SpellsArray (ts : List (List Char)) (cs : List Char) : Prop :=
  ∃ tail, SpellsItems ']' Eq true ts tail ∧ cs = '[' :: tail

theorem nextItem_formed {before : List Char} (hb : Separator first before) (hg : Blank gap)
    (hf : Formed t) : nextItem first (before ++ gap ++ t ++ rest) = .ok (some (t ++ rest)) := by
  obtain ⟨c, r, rfl, hs, hc⟩ := formed_opens hf
  cases first with
  | true =>
    cases hb
    rw [List.nil_append, List.append_assoc, List.cons_append]
    exact nextItem_first hg hs hc
  | false =>
    obtain ⟨gap', hg', rfl⟩ := hb
    simp only [List.append_assoc, List.cons_append, List.nil_append]
    exact nextItem_later hg' hg hs hc

/-- A whole text has steps enough for what stands behind its first bracket. -/
theorem decode_bracket_eq_ok {d : Decoder α} {a : α} {c : Char} {text : String} {gap' : List Char}
    (ht : text.toList = gap ++ c :: tail ++ gap') :
    ∃ n, tail.length ≤ n ∧ (decode d text = .ok a ↔
      ∃ rest, Blank rest ∧ d ⟨n, 126 + 1⟩ text.toList = .ok (a, rest)) := by
  refine ⟨(Budget.ofText text.toList).steps, ?_, decode_eq_ok⟩
  simp only [Budget.ofText, ht, List.length_append, List.length_cons]
  omega

namespace Shape

variable {s : Shape δ α} {draft : δ} {a : α} {field : Field δ} {fields : List (Field δ)}
  {store : δ → δ}

/-- From this draft on, the members of an object make this record. -/
def Makes (s : Shape δ α) (depth : Nat) (draft : δ) (ms : List (String × List Char)) (a : α) : Prop :=
  ∀ (first : Bool) (tail rest : List Char) (b : Budget) (steps : Nat),
    SpellsItems '\x7d' (SpellsMember Eq) first ms tail → tail.length ≤ steps →
    tail.length ≤ b.steps → depth ≤ b.depth →
    s.members b steps first draft (tail ++ rest) = .ok (a, rest)

theorem makes_nil (hf : s.finish draft = .ok a) : s.Makes depth draft [] a := by
  intro first tail rest b steps h hs _ _
  obtain ⟨steps, rfl⟩ := Value.exists_succ (items_length h) hs
  cases h with
  | nil hg =>
    rw [List.append_assoc, List.singleton_append]
    exact (members_nil_eq_ok hg).mpr ⟨hf, rfl⟩

theorem makes_cons {draft' : δ} (ht : ∀ {gap rest b}, Blank gap → Ends rest → t.length ≤ b.steps →
      depth ≤ b.depth → s.TakesMember b k draft (gap ++ t ++ rest) draft' rest)
    (h : s.Makes depth draft' ms a) : s.Makes depth draft ((k, t) :: ms) a := by
  intro first tail rest b steps hm hs hb hd
  obtain ⟨steps, rfl⟩ := Value.exists_succ (items_length hm) hs
  cases hm with
  | @cons _ _ _ before gap text tail hsep hgap hm has =>
    obtain ⟨gap', text', hg', rfl, hlt', hmembers⟩ :=
      members_cons_eq_ok (s := s) (b := b) (tail ++ rest) hsep hgap hm
    have hlt := items_length has
    simp only [List.length_append] at hs hb
    rw [List.append_assoc]
    refine hmembers.mpr ⟨draft', tail ++ rest, ?_, h _ _ _ _ _ has (by omega) (by omega) hd⟩
    exact ht hg' (ends_items (.inr rfl) has) (by omega) hd

/-- A known name that comes for the first time puts its value into the draft. -/
theorem makes_known (hk : (s.fields.find? fun f => f.name == k) = some field)
    (hg : field.given draft = false) (hv : Spells v t) (hn : v.depth ≤ depth)
    (hr : field.read.Reads v store) (h : s.Makes depth (store draft) ms a) :
    s.Makes depth draft ((k, t) :: ms) a :=
  makes_cons (fun hgap he hl hd => .known hk hg (hr hgap hv hl (hn.trans hd) he)) h

/-- A member of another name does nothing. -/
theorem makes_unknown (hk : (s.fields.find? fun f => f.name == k) = none) (hf : Formed t)
    (h : s.Makes depth draft ms a) : s.Makes depth draft ((k, t) :: ms) a :=
  makes_cons (fun hgap he hl _ => .unknown hk (skipValue_formed hgap hf he hl)) h

theorem decoder_curly (hg : Blank gap) :
    s.decoder ⟨steps, depth + 1⟩ (gap ++ '\x7b' :: cs) =
      s.members ⟨steps, depth⟩ steps true s.start cs := by
  rw [decoder, skipSpace_blank hg, skipSpace_cons rfl]
  rfl

theorem decoder_square (hg : Blank gap) :
    s.decoder ⟨steps, depth + 1⟩ (gap ++ '[' :: cs) =
      s.items ⟨steps, depth⟩ true s.start s.fields cs := by
  rw [decoder, skipSpace_blank hg, skipSpace_cons rfl]
  rfl

/-- A whole text that is an object is read from its members on. -/
theorem decode_object_eq_ok {text : String} {gap' : List Char} (hg : Blank gap)
    (ht : text.toList = gap ++ '\x7b' :: tail ++ gap') :
    ∃ n, tail.length ≤ n ∧ (decode s.decoder text = .ok a ↔
      ∃ rest, Blank rest ∧ s.members ⟨n, 126⟩ n true s.start (tail ++ gap') = .ok (a, rest)) := by
  obtain ⟨n, hn, hd⟩ := decode_bracket_eq_ok (d := s.decoder) (a := a) ht
  refine ⟨n, hn, ?_⟩
  rw [hd, ht, List.append_assoc, List.cons_append, decoder_curly hg]

/-- A whole text that is an array is read from its items on. -/
theorem decode_array_eq_ok {text : String} {gap' : List Char} (hg : Blank gap)
    (ht : text.toList = gap ++ '[' :: tail ++ gap') :
    ∃ n, tail.length ≤ n ∧ (decode s.decoder text = .ok a ↔
      ∃ rest, Blank rest ∧
        s.items ⟨n, 126⟩ true s.start s.fields (tail ++ gap') = .ok (a, rest)) := by
  obtain ⟨n, hn, hd⟩ := decode_bracket_eq_ok (d := s.decoder) (a := a) ht
  refine ⟨n, hn, ?_⟩
  rw [hd, ht, List.append_assoc, List.cons_append, decoder_square hg]

/-- A record is read from an object whose members make it. -/
theorem decode_of_makes {text : String} (h : s.Makes 126 s.start ms a)
    (hs : SpellsObject ms cs) (ht : Padded cs text) : decode s.decoder text = .ok a := by
  obtain ⟨tail, hm, rfl⟩ := hs
  obtain ⟨gap, gap', hg, hg', ht⟩ := ht
  obtain ⟨n, hn, hd⟩ := decode_object_eq_ok (s := s) (a := a) hg ht
  exact hd.mpr ⟨gap', hg', h _ _ _ _ _ hm hn hn (Nat.le_refl _)⟩

/-- What the fields of a record have in common: their readers keep to well-formed texts, and a
field is given once it has been read. -/
structure Lawful (s : Shape δ α) : Prop where
  nodup : (s.fields.map Field.name).Nodup
  conforms : ∀ f ∈ s.fields, f.read.Conforms
  absent : ∀ f ∈ s.fields, f.given s.start = false
  given : ∀ f ∈ s.fields, ∀ f' ∈ s.fields, ∀ {b cs store rest}, f.read b cs = .ok (store, rest) →
    ∀ d, f'.given (store d) = (f'.name == f.name || f'.given d)

theorem TakesMember.next_eq {draft' : δ} {next : List Char} (hl : s.Lawful) (hg : Blank gap)
    (hf : Formed t) (hr : Ends rest) (hs : t.length ≤ b.steps)
    (h : s.TakesMember b k draft (gap ++ t ++ rest) draft' next) : next = rest := by
  cases h with
  | unknown hk h =>
    rw [skipValue_formed hg hf hr hs] at h
    exact (Except.ok.inj h).symm
  | known hk _ h =>
    exact Decoder.Conforms.rest_eq (b := b) (hl.conforms _ (List.mem_of_find?_eq_some hk)) hg hf hr h

/-- A field is given by the member of its name, which comes when it is not. -/
theorem TakesMember.given {draft' : δ} {next : List Char} (hl : s.Lawful)
    (h : s.TakesMember b k draft cs draft' next) {f : Field δ} (hf : f ∈ s.fields) :
    (f.given draft').toNat = (f.given draft).toNat + if f.name = k then 1 else 0 := by
  cases h with
  | unknown hk h =>
    have hne : f.name ≠ k := by simpa using List.find?_eq_none.mp hk f hf
    rw [if_neg hne, Nat.add_zero]
  | @known field store next hk hg h =>
    have hmem := List.mem_of_find?_eq_some hk
    have hname : field.name = k := by simpa using List.find?_some hk
    rw [hl.given field hmem f hf h draft, hname]
    by_cases he : f.name = k
    · have hsame : f = field := List.inj_on_of_nodup_map hl.nodup hf hmem (he.trans hname.symm)
      simp [hsame, hname, hg]
    · rw [beq_eq_false_iff_ne.mpr he, Bool.false_or, if_neg he, Nat.add_zero]

/-- If an object is read, each field has been given as often as its name stands there. -/
theorem members_eq_ok (hl : s.Lawful) (hms : ∀ m ∈ ms, Formed m.2)
    (h : SpellsItems '\x7d' (SpellsMember Eq) first ms tail) (hs : tail.length ≤ b.steps)
    (hr : s.members b steps first draft (tail ++ rest) = .ok (a, rest')) :
    ∃ draft', s.finish draft' = .ok a ∧ ∀ f ∈ s.fields,
      (f.given draft').toNat = (f.given draft).toNat + (ms.map Prod.fst).count f.name := by
  induction ms generalizing first tail steps draft with
  | nil =>
    cases steps with
    | zero => cases hr
    | succ steps =>
      cases h with
      | nil hg =>
        rw [List.append_assoc, List.singleton_append] at hr
        exact ⟨draft, ((members_nil_eq_ok hg).mp hr).1, fun f _ => by simp⟩
  | cons m ms ih =>
    cases steps with
    | zero => cases hr
    | succ steps =>
      cases h with
      | @cons _ _ _ before gap text tail hsep hgap hm has =>
        obtain ⟨k, t⟩ := m
        obtain ⟨gap', text', hg', rfl, hlt, hmembers⟩ :=
          members_cons_eq_ok (s := s) (b := b) (tail ++ rest) hsep hgap hm
        simp only [List.length_append] at hs
        rw [List.append_assoc] at hr
        obtain ⟨draft', next, ht, hrest⟩ := hmembers.mp hr
        have hf : Formed t := hms (k, t) List.mem_cons_self
        obtain rfl := ht.next_eq hl hg' hf (ends_items (.inr rfl) has) (by omega)
        obtain ⟨draft'', hfinish, hcount⟩ :=
          ih (fun m hm => hms m (List.mem_cons_of_mem _ hm)) has (by omega) hrest
        refine ⟨draft'', hfinish, fun f hf => ?_⟩
        rw [hcount f hf, ht.given hl hf, List.map_cons, List.count_cons]
        simp only [beq_iff_eq, eq_comm (a := k)]
        omega

/-- From this draft on, the items of an array make this record of these fields. -/
def Lists (s : Shape δ α) (draft : δ) (fields : List (Field δ)) (vs : List Value) (a : α) : Prop :=
  ∀ (first : Bool) (tail rest : List Char) (b : Budget), SpellsItems ']' Spells first vs tail →
    tail.length ≤ b.steps → (∀ v ∈ vs, v.depth ≤ b.depth) →
    s.items b first draft fields (tail ++ rest) = .ok (a, rest)

theorem lists_nil (hf : s.finish draft = .ok a) : s.Lists draft [] [] a := by
  intro first tail rest b h _ _
  cases h with
  | nil hg =>
    rw [List.append_assoc, List.singleton_append, items, hf]
    simp only [closeItems, skipSpace_blank hg, skipSpace_cons (show isSpace ']' = false from rfl)]

theorem lists_cons (hr : field.read.Reads v store) (h : s.Lists (store draft) fields vs a) :
    s.Lists draft (field :: fields) (v :: vs) a := by
  intro first tail rest b hm hb hn
  cases hm with
  | @cons _ _ _ before gap text tail hsep hgap hv has =>
    simp only [List.length_append] at hb
    have hread : field.read b ([] ++ text ++ (tail ++ rest)) = .ok (store, tail ++ rest) :=
      hr blank_nil hv (by omega) (hn v List.mem_cons_self) (ends_items (.inl rfl) has)
    rw [List.append_assoc, items, nextItem_separator (tail ++ rest) hsep hgap hv]
    rw [List.nil_append] at hread
    simp only [hread]
    exact h _ _ _ _ has (by omega) fun v hv => hn v (List.mem_cons_of_mem _ hv)

/-- A record is read from an array whose items make it. -/
theorem reads_array (h : s.Lists s.start s.fields vs a) : s.decoder.Reads (.array vs) a := by
  intro gap text rest b hg hv hl hn hr
  cases hv with
  | @array _ tail hm =>
    obtain ⟨steps, depth⟩ := b
    obtain ⟨depth, rfl⟩ : ∃ n, depth = n + 1 := Value.exists_succ (Nat.succ_pos _) hn
    have hn' : ∀ v ∈ vs, v.depth ≤ depth := fun v hv => by
      have := Value.depth_lt_array hv
      dsimp only at hn
      omega
    rw [List.append_assoc, List.cons_append, decoder_square hg]
    exact h _ _ _ _ hm (Nat.le_of_succ_le hl) hn'

theorem closeItems_eq_ok {a' : α} (h : closeItems a' cs = .ok (a, rest)) : a' = a := by
  unfold closeItems at h
  split at h
  · cases h
    rfl
  · cases h
  · split at h <;> cases h
  · cases h

/-- An array that is read has an item for every field that is given. -/
theorem items_eq_ok {ts : List (List Char)} (hl : s.Lawful) (hfields : ∀ f ∈ fields, f ∈ s.fields)
    (h : SpellsItems ']' Eq first ts tail) (hts : ∀ t ∈ ts, Formed t)
    (hr : s.items b first draft fields (tail ++ rest) = .ok (a, rest')) :
    ∃ draft', s.finish draft' = .ok a ∧ ∀ f ∈ s.fields, f.given draft' = true →
      f.given draft = true ∨ f.name ∈ (fields.map Field.name).take ts.length := by
  induction fields generalizing first ts tail draft with
  | nil =>
    rw [items] at hr
    split at hr
    · rename_i hf
      rw [closeItems_eq_ok hr] at hf
      exact ⟨draft, hf, fun f _ hg => .inl hg⟩
    · cases hr
  | cons field fields ih =>
    cases h with
    | nil hg =>
      rw [List.append_assoc, List.singleton_append, items, nextItem_closing hg] at hr
      simp only at hr
      split at hr
      · rename_i hf
        cases hr
        exact ⟨draft, hf, fun f _ hg => .inl hg⟩
      · cases hr
    | @cons _ t ts before gap _ tail hsep hgap ht has =>
      subst ht
      have hf := hts t List.mem_cons_self
      have hmem := hfields field List.mem_cons_self
      rw [List.append_assoc, items, nextItem_formed hsep hgap hf] at hr
      simp only at hr
      split at hr
      · cases hr
      · rename_i store next hread
        obtain rfl : next = tail ++ rest := Decoder.Conforms.rest_eq (b := b)
          (hl.conforms field hmem) blank_nil hf (ends_items (.inl rfl) has) hread
        obtain ⟨draft', hfinish, hgiven⟩ := ih (fun f hf => hfields f (List.mem_cons_of_mem _ hf))
          has (fun t ht => hts t (List.mem_cons_of_mem _ ht)) hr
        refine ⟨draft', hfinish, fun f hf hg => ?_⟩
        rcases hgiven f hf hg with hs | hn
        · rw [hl.given field hmem f hf hread draft, Bool.or_eq_true, beq_iff_eq] at hs
          rcases hs with hname | hs
          · exact .inr (by simp [hname])
          · exact .inl hs
        · exact .inr (by simp [hn])

end Shape

end HandlerHost.Json
