import HandlerHost.Json.Decoder
import HandlerHost.Proofs.Json.Reading

/-!
Typed readers on the texts of values. What a reader makes of a value is the same for each of its
texts; readers of optional values, lists, dictionaries and records are followed through their parts.
-/
namespace HandlerHost.Json

open Text (Dictionary Entries isDigit)

variable {α β δ : Type} {v : Value} {gap tail text rest : List Char} {first : Bool} {b : Budget}
  {steps n : Nat}

/-- The reader makes this of every text of the value. -/
def Decoder.Reads (d : Decoder α) (v : Value) (a : α) : Prop :=
  ∀ {gap text rest : List Char} {b : Budget}, Blank gap → Spells v text → text.length ≤ b.steps →
    v.depth ≤ b.depth → Ends rest → d b (gap ++ text ++ rest) = .ok (a, rest)

theorem ends_of_blank (hg : Blank gap) : Ends gap := by
  rw [← List.append_nil gap]
  exact ends_blank hg ends_nil

/-- A whole text may have blanks at both ends. -/
theorem decode_of_reads {d : Decoder α} {a : α} {s : String} {gap' : List Char} (hd : d.Reads v a)
    (hv : Spells v text) (hn : v.depth ≤ maxDepth) (hg : Blank gap) (hg' : Blank gap')
    (hs : s.toList = gap ++ text ++ gap') : decode d s = .ok a := by
  have hl : text.length ≤ 2 * s.toList.length + 2 := by
    rw [hs, List.length_append, List.length_append]
    omega
  have hr : d (.ofText s.toList) s.toList = .ok (a, gap') := by
    have hr : d (.ofText s.toList) (gap ++ text ++ gap') = .ok (a, gap') :=
      hd hg hv hl hn (ends_of_blank hg')
    rwa [← hs] at hr
  exact decode_eq_ok.mpr ⟨gap', hg', hr⟩

namespace Decoder

theorem reads_value : Value.decoder.Reads v v.ordered := fun hg hv hl hn hr =>
  Value.readable v hg hv hl hn hr

theorem reads_string {s : String} : Decoder.string.Reads (.string s) s := by
  intro gap text rest b hg hv _ _ _
  rw [List.append_assoc, Decoder.string, skipSpace_spells hg hv]
  cases hv with
  | string h =>
    obtain ⟨inside, hin, rfl⟩ := h
    simp [scanString_chars hin, Except.map]

theorem reads_bool {x : Bool} : Decoder.bool.Reads (.bool x) x := by
  intro gap text rest b hg hv _ _ _
  rw [List.append_assoc, Decoder.bool, skipSpace_spells hg hv]
  cases hv
  cases x <;> rfl

theorem reads_word {bits : Nat} {wanted : String} (hn : n < Nat.pow 2 bits) :
    (word bits wanted).Reads (.ofNat n) n := by
  intro gap text rest b hg hv _ _ hr
  rw [List.append_assoc, word, skipSpace_spells hg hv]
  cases hv with
  | integer hf =>
    have hs : scanNumber false (Nat.toDigits 10 n ++ rest) = .ok (.integer n, rest) :=
      scanNumber_toDigits (natAbs_lt_of_fits hf) hr
    have hi : ¬ (n : Int) < 0 := by omega
    rw [toList_text_integer, if_neg hi, Int.natAbs_natCast]
    have hb : (decide (0 ≤ (n : Int)) && decide ((n : Int) < (Nat.pow 2 bits : Nat))) = true := by
      rw [Bool.and_eq_true, decide_eq_true_eq, decide_eq_true_eq]
      exact ⟨Int.natCast_nonneg n, Int.ofNat_lt.mpr hn⟩
    cases he : Nat.toDigits 10 n with
    | nil => exact absurd he Nat.toDigits_ne_nil
    | cons d ds =>
      have hd : isDigit d = true := isDigit_of_mem_toDigits (n := n) (by simp [he])
      rw [he, List.cons_append] at hs
      rw [List.cons_append]
      split
      · rename_i hm
        exact absurd (List.cons.inj hm).1 (ne_of_isDigit hd rfl)
      · rename_i hm
        obtain ⟨rfl, rfl⟩ := List.cons.inj hm
        simp only [hd, if_true, hs, bind, Except.bind, hb, Int.toNat_natCast]
      · rename_i hm
        cases hm

theorem reads_word16 {x : UInt16} : word16.Reads (.ofNat x.toNat) x := by
  intro gap text rest b hg hv hl hn hr
  have hw : word 16 "u16" b (gap ++ text ++ rest) = .ok (x.toNat, rest) :=
    reads_word x.toNat_lt hg hv hl hn hr
  rw [word16, hw]
  simp [Except.map]

theorem reads_word64 {x : UInt64} : word64.Reads (.ofNat x.toNat) x := by
  intro gap text rest b hg hv hl hn hr
  have hw : word 64 "u64" b (gap ++ text ++ rest) = .ok (x.toNat, rest) :=
    reads_word x.toNat_lt hg hv hl hn hr
  rw [word64, hw]
  simp [Except.map]

theorem reads_option_null {d : Decoder α} : (option d).Reads .null none := by
  intro gap text rest b hg hv _ _ _
  rw [List.append_assoc, option, skipSpace_spells hg hv]
  cases hv
  rfl

theorem reads_option_some {d : Decoder α} {a : α} (h : v ≠ .null) (hd : d.Reads v a) :
    (option d).Reads v (some a) := by
  intro gap text rest b hg hv hl hn hr
  have hd' : d b ([] ++ text ++ rest) = .ok (a, rest) := hd blank_nil hv hl hn hr
  rw [List.append_assoc, option, skipSpace_spells hg hv]
  obtain ⟨c, r, rfl, ho⟩ := spells_opens hv
  have hc : c ≠ 'n' := opens_ne_null h ho
  rw [List.nil_append, List.cons_append] at hd'
  rw [List.cons_append]
  split
  · rename_i he
    cases he
    contradiction
  · simp [hd', Except.map]

/-- A value that may be absent is read from its text or from null. -/
theorem reads_ofOption {d : Decoder α} {f : α → Value} {x : Option α}
    (h : ∀ a, x = some a → f a ≠ .null ∧ d.Reads (f a) a) : (option d).Reads (.ofOption f x) x := by
  cases x with
  | none => exact reads_option_null
  | some a => exact reads_option_some (h a rfl).1 (h a rfl).2

theorem items_spells {d : Decoder α} {f : α → Value} {as acc : List α}
    (hd : ∀ a ∈ as, d.Reads (f a) a) (h : SpellsItems ']' Spells first (as.map f) tail)
    (hf : acc.isEmpty = first) (hs : tail.length ≤ steps) (hb : tail.length ≤ b.steps)
    (hn : ∀ a ∈ as, (f a).depth ≤ b.depth) :
    items d b steps acc (tail ++ rest) = .ok (acc.reverse ++ as, rest) := by
  induction as generalizing first tail acc steps with
  | nil =>
    obtain ⟨steps, rfl⟩ := Value.exists_succ (items_length h) hs
    cases h with
    | nil hg =>
      rw [List.append_assoc, List.singleton_append, items, nextItem_closing hg]
      simp [drop_closing hg, isSpace]
  | cons a as ih =>
    obtain ⟨steps, rfl⟩ := Value.exists_succ (items_length h) hs
    cases h with
    | @cons _ _ _ before gap text tail hsep hg hv has =>
      have hlv := spells_length hv
      have hlt := items_length has
      simp only [List.length_append] at hs hb
      have hnext := nextItem_separator (tail ++ rest) hsep hg hv
      have hread : d b ([] ++ text ++ (tail ++ rest)) = .ok (a, tail ++ rest) :=
        hd a List.mem_cons_self blank_nil hv (by omega) (hn a List.mem_cons_self)
          (ends_items (.inl rfl) has)
      have htail : items d b steps (a :: acc) (tail ++ rest) =
          .ok ((a :: acc).reverse ++ as, rest) :=
        ih (fun c hc => hd c (List.mem_cons_of_mem _ hc)) has rfl (by omega) (by omega)
          fun c hc => hn c (List.mem_cons_of_mem _ hc)
      rw [List.append_assoc, items, hf, hnext]
      rw [List.nil_append] at hread
      simp [hread, htail]

theorem reads_list {d : Decoder α} {f : α → Value} {as : List α}
    (hd : ∀ a ∈ as, d.Reads (f a) a) : (list d).Reads (.array (as.map f)) as := by
  intro gap text rest b hg hv hl hn hr
  rw [List.append_assoc, list, skipSpace_spells hg hv]
  cases hv with
  | @array _ tail h =>
    obtain ⟨steps, depth⟩ := b
    obtain ⟨depth, rfl⟩ : ∃ n, depth = n + 1 := Value.exists_succ (Nat.succ_pos _) hn
    have hn' : ∀ a ∈ as, (f a).depth ≤ depth := fun a ha => by
      have := Value.depth_lt_array (List.mem_map_of_mem (f := f) ha)
      dsimp only at hn
      omega
    have hl' : tail.length ≤ steps := Nat.le_of_succ_le hl
    have hi : items d ⟨steps, depth⟩ steps [] (tail ++ rest) = .ok (as, rest) :=
      items_spells hd h rfl hl' hl' hn'
    exact hi

theorem entries_spells {d : Decoder α} {f : α → Value} {es : Entries α} {acc : Dictionary α}
    (hd : ∀ e ∈ es, d.Reads (f e.2) e.2)
    (h : SpellsItems '\x7d' (SpellsMember Spells) first (es.map fun e => (e.1, f e.2)) tail)
    (hs : tail.length ≤ steps) (hb : tail.length ≤ b.steps)
    (hn : ∀ e ∈ es, (f e.2).depth ≤ b.depth) :
    entries d b steps first acc (tail ++ rest) =
      .ok (es.foldl (fun d e => d.insert e.1 e.2) acc, rest) := by
  induction es generalizing first tail acc steps with
  | nil =>
    obtain ⟨steps, rfl⟩ := Value.exists_succ (items_length h) hs
    cases h with
    | nil hg =>
      rw [List.append_assoc, List.singleton_append, entries, nextKey_closing hg]
      simp [drop_closing hg, isSpace]
  | cons e es ih =>
    obtain ⟨steps, rfl⟩ := Value.exists_succ (items_length h) hs
    cases h with
    | @cons _ _ _ before gap text tail hsep hg hm has =>
      obtain ⟨gap', text', inside, after, hg', hv, hlt', hkey, hstring, hcolon⟩ :=
        member_tokens (tail ++ rest) hsep hg hm
      have hlv := spells_length hv
      have hlt := items_length has
      simp only [List.length_append] at hs hb
      have hread : d b (gap' ++ text' ++ (tail ++ rest)) = .ok (e.2, tail ++ rest) :=
        hd e List.mem_cons_self hg' hv (by omega) (hn e List.mem_cons_self)
          (ends_items (.inr rfl) has)
      rw [List.append_assoc, entries, hkey]
      simp only [hstring, hcolon, hread, String.ofList_toList, List.foldl_cons]
      exact ih (fun c hc => hd c (List.mem_cons_of_mem _ hc)) has (by omega) (by omega)
        fun c hc => hn c (List.mem_cons_of_mem _ hc)

theorem reads_dictionary {d : Decoder α} {f : α → Value} {es : Dictionary α}
    (hd : ∀ e ∈ es.entries, d.Reads (f e.2) e.2) :
    (dictionary d).Reads (.object (es.entries.map fun e => (e.1, f e.2))) es := by
  intro gap text rest b hg hv hl hn hr
  rw [List.append_assoc, dictionary, skipSpace_spells hg hv]
  cases hv with
  | @object _ tail h =>
    obtain ⟨steps, depth⟩ := b
    obtain ⟨depth, rfl⟩ : ∃ n, depth = n + 1 := Value.exists_succ (Nat.succ_pos _) hn
    have hn' : ∀ e ∈ es.entries, (f e.2).depth ≤ depth := fun e he => by
      have := Value.depth_lt_object (List.mem_map_of_mem (f := fun e => (e.1, f e.2)) he)
      dsimp only at hn this
      omega
    have hl' : tail.length ≤ steps := Nat.le_of_succ_le hl
    have hi : entries d ⟨steps, depth⟩ steps true .empty (tail ++ rest) =
        .ok (.ofList es.entries, rest) := entries_spells hd h hl' hl' hn'
    rw [Dictionary.ofList_entries] at hi
    exact hi

theorem reads_field {d : Decoder α} {name : String} {given : δ → Bool} {store : α → δ → δ} {a : α}
    (hd : d.Reads v a) : (Field.of name d given store).read.Reads v (store a) := by
  intro gap text rest b hg hv hl hn hr
  have ha := hd hg hv hl hn hr
  simp only [Field.of, ha, Except.map]

end Decoder

namespace Shape

variable {s : Shape δ α} {draft : δ} {a : α} {k : String} {field : Field δ}
  {ms : List (String × Value)}

/-- At the closing brace the draft is finished. -/
theorem members_nil_eq_ok (hg : Blank gap) {rest' : List Char} :
    s.members b (steps + 1) first draft (gap ++ '\x7d' :: rest) = .ok (a, rest') ↔
      s.finish draft = .ok a ∧ rest = rest' := by
  rw [members, nextKey_closing hg]
  simp only [drop_closing hg (show isSpace '\x7d' = false from rfl)]
  cases s.finish draft <;> simp

/-- A member is taken into the draft: one of an unknown name is passed over, and the value of one
that comes for the first time is read. -/
inductive TakesMember (s : Shape δ α) (b : Budget) (k : String) (draft : δ) (cs : List Char) :
    δ → List Char → Prop
  | unknown {next : List Char} (hk : (s.fields.find? fun f => f.name == k) = none)
      (h : skipValue b.steps cs = .ok next) : TakesMember s b k draft cs draft next
  | known {field : Field δ} {store : δ → δ} {next : List Char}
      (hk : (s.fields.find? fun f => f.name == k) = some field)
      (hg : field.given draft = false) (h : field.read b cs = .ok (store, next)) :
      TakesMember s b k draft cs (store draft) next

/-- Members are read if the first is taken and the others are read from there. -/
theorem members_cons_eq_ok {β : Type} {spells : β → List Char → Prop} {x : β} {before : List Char}
    (more : List Char) (hb : Separator first before) (hg : Blank gap)
    (hm : SpellsMember spells (k, x) text) :
    ∃ gap' text', Blank gap' ∧ spells x text' ∧ text'.length < text.length ∧
      ∀ {steps : Nat} {draft : δ} {a : α} {rest : List Char},
        s.members b (steps + 1) first draft (before ++ gap ++ text ++ more) = .ok (a, rest) ↔
          ∃ draft' next, s.TakesMember b k draft (gap' ++ text' ++ more) draft' next ∧
            s.members b steps false draft' next = .ok (a, rest) := by
  obtain ⟨gap', text', inside, after, hg', hv, hlt, hkey, hstring, hcolon⟩ :=
    member_tokens more hb hg hm
  refine ⟨gap', text', hg', hv, hlt, fun {steps draft a rest} => ?_⟩
  rw [members, hkey]
  simp only [hstring, String.ofList_toList, hcolon]
  constructor
  · intro h
    split at h
    · rename_i hk
      split at h
      · cases h
      · rename_i hskip
        exact ⟨_, _, .unknown hk hskip, h⟩
    · rename_i field hk
      split at h
      · cases h
      · rename_i hgiven
        split at h
        · cases h
        · rename_i hread
          exact ⟨_, _, .known hk (by simpa using hgiven) hread, h⟩
  · rintro ⟨draft', next, ht, h⟩
    cases ht with
    | unknown hk hskip => simpa only [hk, hskip] using h
    | known hk hgiven hread =>
      simpa only [hk, hgiven, hread, Bool.false_eq_true, if_false] using h

/-- From this draft on, the members of an object make this record. -/
def Yields (s : Shape δ α) (draft : δ) (ms : List (String × Value)) (a : α) : Prop :=
  ∀ {first : Bool} {tail rest : List Char} {b : Budget} {steps : Nat},
    SpellsItems '\x7d' (SpellsMember Spells) first ms tail → tail.length ≤ steps →
    tail.length ≤ b.steps → (∀ m ∈ ms, m.2.depth ≤ b.depth) →
    s.members b steps first draft (tail ++ rest) = .ok (a, rest)

theorem yields_nil (hf : s.finish draft = .ok a) : s.Yields draft [] a := by
  intro first tail rest b steps h hs _ _
  obtain ⟨steps, rfl⟩ := Value.exists_succ (items_length h) hs
  cases h with
  | nil hg =>
    rw [List.append_assoc, List.singleton_append]
    exact (members_nil_eq_ok hg).mpr ⟨hf, rfl⟩

/-- A known key that comes for the first time puts its value into the draft. -/
theorem yields_cons {store : δ → δ} (hk : (s.fields.find? fun f => f.name == k) = some field)
    (hg : field.given draft = false) (hr : field.read.Reads v store)
    (h : s.Yields (store draft) ms a) : s.Yields draft ((k, v) :: ms) a := by
  intro first tail rest b steps ht hs hb hn
  obtain ⟨steps, rfl⟩ := Value.exists_succ (items_length ht) hs
  cases ht with
  | @cons _ _ _ before gap text tail hsep hgap hm has =>
    obtain ⟨gap', text', hg', hv, hlt', hmembers⟩ :=
      members_cons_eq_ok (s := s) (b := b) (tail ++ rest) hsep hgap hm
    have hlv := spells_length hv
    have hlt := items_length has
    simp only [List.length_append] at hs hb
    have hread : field.read b (gap' ++ text' ++ (tail ++ rest)) = .ok (store, tail ++ rest) :=
      hr hg' hv (by omega) (hn (k, v) List.mem_cons_self) (ends_items (.inr rfl) has)
    rw [List.append_assoc]
    refine hmembers.mpr ⟨_, _, .known hk hg hread, ?_⟩
    exact h has (by omega) (by omega) fun m hm => hn m (List.mem_cons_of_mem _ hm)

/-- A record is read from an object whose members make it. -/
theorem reads_object (h : s.Yields s.start ms a) : s.decoder.Reads (.object ms) a := by
  intro gap text rest b hg hv hl hn hr
  rw [List.append_assoc, decoder, skipSpace_spells hg hv]
  cases hv with
  | @object _ tail ht =>
    obtain ⟨steps, depth⟩ := b
    obtain ⟨depth, rfl⟩ : ∃ n, depth = n + 1 := Value.exists_succ (Nat.succ_pos _) hn
    have hn' : ∀ m ∈ ms, m.2.depth ≤ depth := fun m hm => by
      have := Value.depth_lt_object hm
      dsimp only at hn
      omega
    have hl' : tail.length ≤ steps := Nat.le_of_succ_le hl
    exact h ht hl' hl' hn'

end Shape

end HandlerHost.Json
