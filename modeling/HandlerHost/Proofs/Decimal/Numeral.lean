import HandlerHost.Decimal.Extended
import HandlerHost.Proofs.Json.NumeralExtent

/-!
The texts of numbers. A sign or none comes first; then a special name in any case, or digits with at
most one point in or around them and an exponent or none. All of these are read, and nothing else
is.
-/
namespace HandlerHost.Decimal

open Text (isDigit toNat_of_isDigit digitsValue? digitsValue?_eq_some Digits)
open Json (Halts takeWhile_digits dropWhile_digits exists_digits halts_cons)

variable {c : Char} {cs ds es sign rest name : List Char} {negative : Bool} {n scale : Nat} {e : Int}
  {x : Extended} {s : String}

/-- A sign or none, and whether it is a minus. -/
inductive Sign : Bool → List Char → Prop
  | none : Sign false []
  | plus : Sign false ['+']
  | minus : Sign true ['-']

/-- A number behind a sign. -/
def signed (negative : Bool) (n : Nat) : Int := if negative then -n else n

/-- Digits with at most one point: the number that they denote without it, and how many of them
stand behind it. -/
inductive Mantissa : Nat → Nat → List Char → Prop
  | whole {n : Nat} {ds : List Char} (hd : Digits n ds) : Mantissa n 0 ds
  | pointed {n : Nat} {whole fraction : List Char} (hd : Digits n (whole ++ fraction)) :
      Mantissa n fraction.length (whole ++ '.' :: fraction)

/-- The letter of an exponent and its digits, or nothing at all. -/
inductive Exponent : Int → List Char → Prop
  | none : Exponent 0 []
  | some {c : Char} {negative : Bool} {sign ds : List Char} {n : Nat} (hc : c = 'e' ∨ c = 'E')
      (hs : Sign negative sign) (hd : Digits n ds) :
      Exponent (signed negative n) (c :: (sign ++ ds))

/-- A text that spells a number. -/
inductive Spelled : Extended → List Char → Prop
  | infinity {negative : Bool} {sign name : List Char} (hs : Sign negative sign)
      (hn : name.map Char.toLower = "inf".toList ∨ name.map Char.toLower = "infinity".toList) :
      Spelled (.infinite negative) (sign ++ name)
  | nan {negative : Bool} {sign name : List Char} (hs : Sign negative sign)
      (hn : name.map Char.toLower = "nan".toList) : Spelled .nan (sign ++ name)
  | numeral {negative : Bool} {sign ds es : List Char} {n scale : Nat} {e : Int}
      (hs : Sign negative sign) (hm : Mantissa n scale ds) (he : Exponent e es) :
      Spelled (.ofDecimal negative n (e - scale)) (sign ++ (ds ++ es))

/-- No sign comes next. -/
def Unsigned (cs : List Char) : Prop := ∀ c, cs.head? = some c → c ≠ '+' ∧ c ≠ '-'

theorem unsigned_cons (h : c ≠ '+' ∧ c ≠ '-') : Unsigned (c :: cs) := by
  intro d hd
  cases hd
  exact h

theorem unsigned_digits (h : Digits n ds) : Unsigned ds := by
  intro c hc
  have hmem : c ∈ ds := List.mem_of_mem_head? hc
  constructor
  · rintro rfl
    exact h.notMem rfl hmem
  · rintro rfl
    exact h.notMem rfl hmem

theorem splitSign_append (hs : Sign negative sign) (hcs : Unsigned cs) :
    Extended.splitSign (sign ++ cs) = (negative, cs) := by
  cases hs with
  | plus => rfl
  | minus => rfl
  | none =>
    rw [List.nil_append]
    unfold Extended.splitSign
    split
    · exact absurd rfl (hcs '-' rfl).2
    · exact absurd rfl (hcs '+' rfl).1
    · rfl

theorem sign_of_splitSign (h : Extended.splitSign cs = (negative, ds)) :
    ∃ sign, Sign negative sign ∧ cs = sign ++ ds := by
  unfold Extended.splitSign at h
  split at h <;> cases h
  · exact ⟨_, .minus, rfl⟩
  · exact ⟨_, .plus, rfl⟩
  · exact ⟨_, .none, rfl⟩

theorem exponentOf?_eq_some : Extended.exponentOf? es = some e ↔ Exponent e es := by
  constructor
  · intro h
    cases es with
    | nil =>
      cases h
      exact .none
    | cons c cs =>
      rw [Extended.exponentOf?] at h
      split at h
      · rename_i hc
        cases hsplit : Extended.splitSign cs with
        | mk negative ds =>
          rw [hsplit] at h
          obtain ⟨i, hi, rfl⟩ := Option.map_eq_some_iff.mp h
          obtain ⟨n, hn, hni⟩ := Option.bind_eq_some_iff.mp hi
          obtain rfl : (n : Int) = i := Option.some.inj hni
          obtain ⟨sign, hs, rfl⟩ := sign_of_splitSign hsplit
          exact .some (by simpa using hc) hs (digitsValue?_eq_some.mp hn)
      · cases h
  · intro h
    cases h with
    | none => rfl
    | @some c _ _ _ _ hc hs hd =>
      have hletter : (c == 'e' || c == 'E') = true := by simpa using hc
      rw [Extended.exponentOf?, if_pos hletter, splitSign_append hs (unsigned_digits hd)]
      simp only [digitsValue?_eq_some.mpr hd]
      rfl

/-- An exponent begins with no digit and no point. -/
theorem halts_of_exponent (he : Exponent e es) : Halts es ∧ es.head? ≠ some '.' := by
  cases he with
  | none => exact ⟨nofun, nofun⟩
  | some hc _ _ =>
    rcases hc with rfl | rfl
    · exact ⟨halts_cons rfl, by simp⟩
    · exact ⟨halts_cons rfl, by simp⟩

theorem ofNumeral?_whole (hd : ∀ c ∈ ds, isDigit c = true) (hr : Halts rest)
    (hp : rest.head? ≠ some '.') : Extended.ofNumeral? negative (ds ++ rest) =
      (digitsValue? ds).bind fun n => (Extended.exponentOf? rest).bind fun e =>
        some (.ofDecimal negative n e) := by
  rw [Extended.ofNumeral?, takeWhile_digits hd hr, dropWhile_digits hd hr]
  split
  rename_i hsplit
  split at hsplit
  · exact absurd rfl hp
  · cases hsplit
    simp

theorem ofNumeral?_pointed {whole fraction : List Char} (hw : ∀ c ∈ whole, isDigit c = true)
    (hf : ∀ c ∈ fraction, isDigit c = true) (hr : Halts rest) :
    Extended.ofNumeral? negative (whole ++ '.' :: (fraction ++ rest)) =
      (digitsValue? (whole ++ fraction)).bind fun n => (Extended.exponentOf? rest).bind fun e =>
        some (.ofDecimal negative n (e - fraction.length)) := by
  have hpoint : Halts ('.' :: (fraction ++ rest)) := halts_cons rfl
  rw [Extended.ofNumeral?, takeWhile_digits hw hpoint, dropWhile_digits hw hpoint]
  simp only [takeWhile_digits hf hr, dropWhile_digits hf hr]
  rfl

/-- A numeral is digits with a point or none and an exponent or none. -/
theorem ofNumeral?_eq_some : Extended.ofNumeral? negative cs = some x ↔
    ∃ n scale ds e es, Mantissa n scale ds ∧ Exponent e es ∧ cs = ds ++ es ∧
      x = .ofDecimal negative n (e - scale) := by
  constructor
  · intro h
    obtain ⟨ds, rest, rfl, hd, hr⟩ := exists_digits cs
    by_cases hp : rest.head? = some '.'
    · obtain ⟨rest, rfl⟩ : ∃ rest', rest = '.' :: rest' := List.head?_eq_some_iff.mp hp
      obtain ⟨fraction, rest, rfl, hf, hr⟩ := exists_digits rest
      rw [ofNumeral?_pointed hd hf hr] at h
      obtain ⟨n, hn, h⟩ := Option.bind_eq_some_iff.mp h
      obtain ⟨e, he, h⟩ := Option.bind_eq_some_iff.mp h
      exact ⟨n, _, _, e, rest, .pointed (digitsValue?_eq_some.mp hn), exponentOf?_eq_some.mp he,
        by simp, (Option.some.inj h).symm⟩
    · rw [ofNumeral?_whole hd hr hp] at h
      obtain ⟨n, hn, h⟩ := Option.bind_eq_some_iff.mp h
      obtain ⟨e, he, h⟩ := Option.bind_eq_some_iff.mp h
      exact ⟨n, 0, ds, e, rest, .whole (digitsValue?_eq_some.mp hn), exponentOf?_eq_some.mp he,
        rfl, by simpa using (Option.some.inj h).symm⟩
  · rintro ⟨n, scale, ds, e, es, hm, he, rfl, rfl⟩
    obtain ⟨hr, hp⟩ := halts_of_exponent he
    have hexponent := exponentOf?_eq_some.mpr he
    cases hm with
    | whole hd =>
      rw [ofNumeral?_whole hd.digits hr hp, digitsValue?_eq_some.mpr hd, hexponent]
      simp
    | @pointed whole fraction hd =>
      obtain ⟨hw, hf⟩ := List.forall_mem_append.mp hd.digits
      rw [List.append_assoc, List.cons_append, ofNumeral?_pointed hw hf hr,
        digitsValue?_eq_some.mpr hd, hexponent]
      rfl

theorem exists_head_of_mantissa (hm : Mantissa n scale ds) :
    ∃ c cs, ds = c :: cs ∧ (isDigit c = true ∨ c = '.') := by
  cases hm with
  | whole hd =>
    cases ds with
    | nil => exact absurd rfl hd.ne_nil
    | cons c cs => exact ⟨c, cs, rfl, .inl (hd.digits c List.mem_cons_self)⟩
  | @pointed whole fraction hd =>
    cases whole with
    | nil => exact ⟨'.', fraction, rfl, .inr rfl⟩
    | cons c cs => exact ⟨c, _, rfl, .inl (hd.digits c List.mem_cons_self)⟩

theorem lt_of_isDigit_or (hc : isDigit c = true ∨ c = '.') : c.toNat < 65 ∧ c ≠ '+' ∧ c ≠ '-' := by
  rcases hc with hc | rfl
  · obtain ⟨-, hhigh⟩ := toNat_of_isDigit hc
    refine ⟨by omega, ?_, ?_⟩
    · rintro rfl
      cases hc
    · rintro rfl
      cases hc
  · decide

theorem unsigned_name {word : String} (hn : name.map Char.toLower = word.toList)
    (hw : word.toList.head? = some 'i' ∨ word.toList.head? = some 'n') : Unsigned name := by
  intro c hc
  have hlower : word.toList.head? = some c.toLower := by rw [← hn, List.head?_map, hc]; rfl
  constructor
  · rintro rfl
    rw [hlower] at hw
    exact absurd hw (by decide)
  · rintro rfl
    rw [hlower] at hw
    exact absurd hw (by decide)

/-- The texts that are read as numbers are those that spell them. -/
theorem ofText?_eq_some : Extended.ofText? s = some x ↔ Spelled x s.toList := by
  constructor
  · intro h
    cases hsplit : Extended.splitSign s.toList with
    | mk negative cs =>
      obtain ⟨sign, hs, hcs⟩ := sign_of_splitSign hsplit
      rw [hcs]
      have hname : ∀ {word : String}, String.ofList (cs.map Char.toLower) = word →
          cs.map Char.toLower = word.toList := by
        rintro word rfl
        rw [String.toList_ofList]
      simp only [Extended.ofText?, hsplit] at h
      split at h
      · rename_i hword
        cases h
        exact .infinity hs (.inl (hname hword))
      · rename_i hword
        cases h
        exact .infinity hs (.inr (hname hword))
      · rename_i hword
        cases h
        exact .nan hs (hname hword)
      · obtain ⟨n, scale, ds, e, es, hm, he, rfl, rfl⟩ := ofNumeral?_eq_some.mp h
        exact .numeral hs hm he
  · intro h
    generalize hcs : s.toList = cs at h
    cases h with
    | @infinity negative sign name hs hn =>
      have hunsigned : Unsigned name :=
        hn.elim (fun hn => unsigned_name hn (.inl rfl)) fun hn => unsigned_name hn (.inl rfl)
      have hword : String.ofList (name.map Char.toLower) = "inf" ∨
          String.ofList (name.map Char.toLower) = "infinity" :=
        hn.imp (fun hn => by rw [hn, String.ofList_toList]) fun hn => by
          rw [hn, String.ofList_toList]
      rw [Extended.ofText?, hcs, splitSign_append hs hunsigned]
      rcases hword with hword | hword <;> simp only [hword]
    | @nan negative sign name hs hn =>
      have hword : String.ofList (name.map Char.toLower) = "nan" := by
        rw [hn, String.ofList_toList]
      rw [Extended.ofText?, hcs, splitSign_append hs (unsigned_name hn (.inr rfl))]
      simp only [hword]
    | @numeral negative sign ds es n scale e hs hm he =>
      obtain ⟨c, rest, hds, hc⟩ := exists_head_of_mantissa hm
      obtain ⟨hlt, hplus, hminus⟩ := lt_of_isDigit_or hc
      have hunsigned : Unsigned (ds ++ es) := by
        rw [hds]
        exact unsigned_cons ⟨hplus, hminus⟩
      have hhead : ∀ {word : String} {d : Char},
          String.ofList ((ds ++ es).map Char.toLower) = word → word.toList.head? = some d →
            d.toNat < 65 := by
        rintro word d rfl hd
        rw [String.toList_ofList, hds, List.cons_append, List.map_cons, List.head?_cons,
          Text.toLower_of_not_upper (by omega)] at hd
        exact Option.some.inj hd ▸ hlt
      simp only [Extended.ofText?, hcs, splitSign_append hs hunsigned]
      split
      · rename_i hword
        exact absurd (hhead hword rfl) (by decide)
      · rename_i hword
        exact absurd (hhead hword rfl) (by decide)
      · rename_i hword
        exact absurd (hhead hword rfl) (by decide)
      · exact ofNumeral?_eq_some.mpr ⟨n, scale, ds, e, es, hm, he, rfl, rfl⟩

theorem slash_notMem_of_sign (hs : Sign negative sign) : '/' ∉ sign := by
  cases hs <;> decide

/-- No number has a slash in it. -/
theorem slash_notMem_of_spelled (h : Spelled x cs) : '/' ∉ cs := by
  have hname : ∀ {name word : List Char}, name.map Char.toLower = word → '/' ∉ word → '/' ∉ name :=
    fun hn hw hmem => hw (hn ▸ List.mem_map_of_mem (f := Char.toLower) hmem)
  cases h with
  | infinity hs hn =>
    rw [List.mem_append, not_or]
    exact ⟨slash_notMem_of_sign hs,
      hn.elim (fun hn => hname hn (by decide)) fun hn => hname hn (by decide)⟩
  | nan hs hn =>
    rw [List.mem_append, not_or]
    exact ⟨slash_notMem_of_sign hs, hname hn (by decide)⟩
  | @numeral _ _ ds es _ _ _ hs hm he =>
    have hmantissa : '/' ∉ ds := by
      cases hm with
      | whole hd => exact hd.notMem rfl
      | pointed hd =>
        have hboth := hd.notMem (c := '/') rfl
        simp only [List.mem_append, not_or, List.mem_cons] at hboth ⊢
        exact ⟨hboth.1, by decide, hboth.2⟩
    have hexponent : '/' ∉ es := by
      cases he with
      | none => exact List.not_mem_nil
      | some hc hs hd =>
        simp only [List.mem_append, not_or, List.mem_cons]
        refine ⟨?_, slash_notMem_of_sign hs, hd.notMem rfl⟩
        rcases hc with rfl | rfl <;> decide
    simp only [List.mem_append, not_or]
    exact ⟨slash_notMem_of_sign hs, hmantissa, hexponent⟩

end HandlerHost.Decimal
