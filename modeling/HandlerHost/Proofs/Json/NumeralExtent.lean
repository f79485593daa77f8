import Mathlib.Data.List.TakeWhile
import HandlerHost.Proofs.Json.Spelling

/-!
How far a numeral goes. A reader takes digits and then what ends the numeral: a fraction, an
exponent or nothing. What it takes ends in a digit, and it takes the same whatever follows, if that
is a blank, a separator or a closing bracket.
-/
namespace HandlerHost.Json

open Text (isDigit digitValue)

variable {α : Type} {c : Char} {cs ds used more rest rest' : List Char}
  {value count significand : Nat} {exponent : Int} {number : Number} {negative : Bool}

/-- A reader takes just this of every text that begins with it and does not go on as a numeral. -/
def Takes (read : Scan α) (used : List Char) (a : α) : Prop :=
  ∀ rest, Ends rest → read (used ++ rest) = .ok (a, rest)

/-- No digit comes next. -/
def Halts (rest : List Char) : Prop := ∀ c, rest.head? = some c → isDigit c = false

/-- If this ends anywhere, it ends in a digit. -/
def EndsInDigit (used : List Char) : Prop := ∀ c, used.getLast? = some c → isDigit c = true

theorem halts_of_ends (h : Ends rest) : Halts rest := by
  cases rest with
  | nil => simp [Halts]
  | cons c rest =>
    intro d hd
    cases hd
    exact not_isDigit_of_ends h

theorem halts_cons (h : isDigit c = false) : Halts (c :: rest) := by
  intro d hd
  cases hd
  exact h

theorem endsInDigit_nil : EndsInDigit [] := by simp [EndsInDigit]

theorem endsInDigit_digits (h : ∀ c ∈ ds, isDigit c = true) : EndsInDigit ds := fun c hc =>
  h c (List.mem_of_getLast? hc)

theorem endsInDigit_append (h : EndsInDigit used) (hm : EndsInDigit more) :
    EndsInDigit (used ++ more) := by
  intro c hc
  rw [List.getLast?_append] at hc
  cases hl : more.getLast? with
  | none => exact h c (by simpa [hl] using hc)
  | some d => exact hm c (by simpa [hl] using hc)

/-- A text that ends in digits still does with anything in front. -/
theorem endsInDigit_cons (h : EndsInDigit used) (hn : used ≠ []) : EndsInDigit (c :: used) := by
  intro d hd
  rw [List.getLast?_cons_of_ne_nil hn] at hd
  exact h d hd

theorem dropWhile_digits (hd : ∀ c ∈ ds, isDigit c = true) (hr : Halts rest) :
    (ds ++ rest).dropWhile isDigit = rest := by
  rw [List.dropWhile_append_of_pos hd]
  cases rest with
  | nil => rfl
  | cons c rest => exact List.dropWhile_cons_of_neg (by simp [hr c rfl])

theorem takeWhile_digits (hd : ∀ c ∈ ds, isDigit c = true) (hr : Halts rest) :
    (ds ++ rest).takeWhile isDigit = ds := by
  rw [List.takeWhile_append_of_pos hd]
  cases rest with
  | nil => simp
  | cons c rest => simp [hr c rfl]

/-- Digits come first, then something else. -/
theorem exists_digits (cs : List Char) :
    ∃ ds rest, cs = ds ++ rest ∧ (∀ c ∈ ds, isDigit c = true) ∧ Halts rest := by
  refine ⟨cs.takeWhile isDigit, cs.dropWhile isDigit, List.takeWhile_append_dropWhile.symm,
    fun c hc => List.mem_takeWhile_imp hc, ?_⟩
  intro c hc
  simpa [hc] using List.head?_dropWhile_not isDigit cs

/-- What of a run of digits fits does not depend on what follows the run. -/
theorem scanSignificand_append (value count : Nat) (hd : ∀ c ∈ ds, isDigit c = true)
    (hr : Halts rest) :
    scanSignificand value count (ds ++ rest) =
      ((scanSignificand value count ds).1, (scanSignificand value count ds).2.1,
        (scanSignificand value count ds).2.2 ++ rest) := by
  induction ds generalizing value count with
  | nil =>
    cases rest with
    | nil => rfl
    | cons c rest => simp [scanSignificand, hr c rfl]
  | cons d ds ih =>
    rw [List.cons_append, scanSignificand, scanSignificand]
    split
    · exact ih _ _ fun c hc => hd c (List.mem_cons_of_mem _ hc)
    · rfl

/-- What does not fit of a run of digits is a run of digits. -/
theorem digits_scanSignificand (value count : Nat) (hd : ∀ c ∈ ds, isDigit c = true) :
    ∀ c ∈ (scanSignificand value count ds).2.2, isDigit c = true := by
  induction ds generalizing value count with
  | nil => simp [scanSignificand]
  | cons d ds ih =>
    rw [scanSignificand]
    split
    · exact ih _ _ fun c hc => hd c (List.mem_cons_of_mem _ hc)
    · exact hd

theorem count_scanSignificand (value count : Nat) (ds : List Char) :
    (scanSignificand value count ds).2.1 + (scanSignificand value count ds).2.2.length =
      count + ds.length := by
  induction ds generalizing value count with
  | nil => simp [scanSignificand]
  | cons d ds ih =>
    rw [scanSignificand]
    split
    · rw [ih, List.length_cons]
      omega
    · rfl

theorem scanExponentDigits_append (value : Nat) (hd : ∀ c ∈ ds, isDigit c = true)
    (hr : Halts rest) :
    scanExponentDigits value (ds ++ rest) =
      ((scanExponentDigits value ds).1, (scanExponentDigits value ds).2 ++ rest) := by
  induction ds generalizing value with
  | nil =>
    cases rest with
    | nil => rfl
    | cons c rest => simp [scanExponentDigits, hr c rfl]
  | cons d ds ih =>
    have hs : isDigit d = true := hd d List.mem_cons_self
    simp only [List.cons_append, scanExponentDigits, hs, if_true]
    split
    · exact ih _ fun c hc => hd c (List.mem_cons_of_mem _ hc)
    · rfl

theorem digits_scanExponentDigits (value : Nat) (hd : ∀ c ∈ ds, isDigit c = true) :
    ∀ c ∈ (scanExponentDigits value ds).2, isDigit c = true := by
  induction ds generalizing value with
  | nil => simp [scanExponentDigits]
  | cons d ds ih =>
    have hs : isDigit d = true := hd d List.mem_cons_self
    have ht : ∀ c ∈ ds, isDigit c = true := fun c hc => hd c (List.mem_cons_of_mem _ hc)
    simp only [scanExponentDigits, hs, if_true]
    split
    · exact ih _ ht
    · exact ht

theorem nil_of_scanExponentDigits (value : Nat) {e : Nat} (hd : ∀ c ∈ ds, isDigit c = true)
    (h : (scanExponentDigits value ds).1 = some e) : (scanExponentDigits value ds).2 = [] := by
  induction ds generalizing value with
  | nil => rfl
  | cons d ds ih =>
    have hs : isDigit d = true := hd d List.mem_cons_self
    simp only [scanExponentDigits, hs, if_true] at h ⊢
    split at h
    · rename_i hv
      rw [if_pos hv]
      exact ih _ (fun c hc => hd c (List.mem_cons_of_mem _ hc)) h
    · cases h

/-- A number, if there is one, is read of this, and nothing of what follows. -/
def Settles (read : Scan Number) (used : List Char) : Prop :=
  ∃ o : Option Number, ∀ rest, Halts rest →
    (read (used ++ rest)).toOption = o.map fun number => (number, rest)

theorem takes_of_settles {read : Scan Number} (h : Settles read used) (hr : Halts rest)
    (hread : read (used ++ rest) = .ok (number, rest')) :
    rest' = rest ∧ ∀ rest, Halts rest → read (used ++ rest) = .ok (number, rest) := by
  obtain ⟨o, ho⟩ := h
  have hn := ho rest hr
  rw [hread] at hn
  cases o with
  | none => cases hn
  | some m =>
    cases hn
    refine ⟨rfl, fun rest hr => ?_⟩
    have hm := ho rest hr
    cases hread : read (used ++ rest) with
    | error f =>
      rw [hread] at hm
      cases hm
    | ok r =>
      rw [hread] at hm
      exact congrArg _ (Option.some.inj hm)

theorem finishReal_eq_ok :
    finishReal negative significand exponent rest = .ok (number, rest') ↔
      (∃ x, Number.ofParts? negative significand exponent = some x ∧ number = .real x) ∧
        rest' = rest := by
  unfold finishReal
  cases Number.ofParts? negative significand exponent with
  | none => simp
  | some x =>
    simp only [Except.ok.injEq, Prod.mk.injEq, Option.some.injEq, exists_eq_left']
    exact ⟨fun ⟨h, h'⟩ => ⟨h.symm, h'.symm⟩, fun ⟨h, h'⟩ => ⟨h.symm, h'.symm⟩⟩

/-- The sign of an exponent. -/
def IsSign (sign : List Char) : Prop := sign = [] ∨ sign = ['+'] ∨ sign = ['-']

theorem scanExponent_settles {sign : List Char} (hs : IsSign sign) (hc : isDigit c = true)
    (hd : ∀ c ∈ ds, isDigit c = true) :
    Settles (scanExponent negative significand exponent) (sign ++ c :: ds) := by
  have hne : c ≠ '+' ∧ c ≠ '-' := ⟨ne_of_isDigit hc rfl, ne_of_isDigit hc rfl⟩
  have happ : ∀ rest, Halts rest → scanExponentDigits (digitValue c) (ds ++ rest) =
      ((scanExponentDigits (digitValue c) ds).1, (scanExponentDigits (digitValue c) ds).2 ++ rest) :=
    fun rest hr => scanExponentDigits_append _ hd hr
  have hleft := digits_scanExponentDigits (digitValue c) hd
  cases hx : (scanExponentDigits (digitValue c) ds).1 with
  | some e =>
    have hl := nil_of_scanExponentDigits (digitValue c) hd hx
    refine ⟨(Number.ofParts? negative significand
      (if sign = ['-'] then exponent - e else exponent + e)).map .real, fun rest hr => ?_⟩
    rcases hs with rfl | rfl | rfl <;>
      simp [scanExponent, hc, happ rest hr, hx, hl, hne, finishReal] <;>
      split <;> simp_all [Except.toOption]
  | none =>
    refine ⟨if significand ≠ 0 ∧ sign ≠ ['-'] then none else some (.real (.zero negative)),
      fun rest hr => ?_⟩
    have hdrop := dropWhile_digits hleft hr
    rcases hs with rfl | rfl | rfl <;>
      by_cases hz : significand = 0 <;>
      simp [scanExponent, hc, happ rest hr, hx, hne, hdrop, hz, Except.toOption]

/-- An exponent has a digit after its sign. -/
theorem exists_exponent {cs : List Char} (h : scanExponent negative significand exponent cs =
    .ok (number, rest')) :
    ∃ sign c ds rest, IsSign sign ∧ isDigit c = true ∧ (∀ c ∈ ds, isDigit c = true) ∧
      Halts rest ∧ cs = sign ++ c :: ds ++ rest := by
  have hdigit : ∃ sign c r, IsSign sign ∧ isDigit c = true ∧ cs = sign ++ c :: r := by
    unfold scanExponent at h
    split at h
    rename_i down cs' heq
    split at h
    · cases h
    · split at h
      · rename_i c r hc
        split at heq <;> cases heq
        · exact ⟨['+'], c, r, .inr (.inl rfl), hc, rfl⟩
        · exact ⟨['-'], c, r, .inr (.inr rfl), hc, rfl⟩
        · exact ⟨[], c, r, .inl rfl, hc, rfl⟩
      · cases h
  obtain ⟨sign, c, r, hs, hc, rfl⟩ := hdigit
  obtain ⟨ds, rest, rfl, hd, hr⟩ := exists_digits r
  exact ⟨sign, c, ds, rest, hs, hc, hd, hr, by simp⟩

theorem scanExponent_takes (h : scanExponent negative significand exponent cs =
    .ok (number, rest)) :
    ∃ used, cs = used ++ rest ∧ used ≠ [] ∧ EndsInDigit used ∧
      Takes (scanExponent negative significand exponent) used number := by
  obtain ⟨sign, c, ds, rest, hs, hc, hd, hr, rfl⟩ := exists_exponent h
  obtain ⟨rfl, ht⟩ := takes_of_settles (scanExponent_settles hs hc hd) hr h
  refine ⟨sign ++ c :: ds, rfl, by simp, ?_, fun rest hr => ht rest (halts_of_ends hr)⟩
  have hl : EndsInDigit (c :: ds) := endsInDigit_digits (List.forall_mem_cons.mpr ⟨hc, hd⟩)
  rcases hs with rfl | rfl | rfl
  · exact hl
  · exact endsInDigit_cons hl (by simp)
  · exact endsInDigit_cons hl (by simp)

/-- What a reader takes of the end of a numeral: nothing, or something that no digit begins and a
digit ends. -/
structure TakesEnd (read : Scan Number) (used : List Char) (number : Number) : Prop where
  takes : Takes read used number
  ends : EndsInDigit used
  halts : ∀ rest, Ends rest → Halts (used ++ rest)

theorem takesEnd_nil {read : Scan Number} (h : Takes read [] number) :
    TakesEnd read [] number :=
  ⟨h, endsInDigit_nil, fun _ => halts_of_ends⟩

/-- A point or the letter of an exponent goes on with what is read after it. -/
theorem takesEnd_cons {read inner : Scan Number} (hread : ∀ r, read (c :: r) = inner r)
    (hc : isDigit c = false) (ht : Takes inner used number) (hd : EndsInDigit used)
    (hn : used ≠ []) : TakesEnd read (c :: used) number :=
  ⟨fun rest hr => (hread _).trans (ht rest hr), endsInDigit_cons hd hn, fun _ _ => halts_cons hc⟩

theorem ends_ne (h : Ends (c :: rest)) : c ≠ 'e' ∧ c ≠ 'E' ∧ c ≠ '.' := by
  have hc := h c rfl
  simp only [isSpace, Bool.or_eq_true, beq_iff_eq, or_assoc] at hc
  rcases hc with rfl | rfl | rfl | rfl | rfl | rfl | rfl <;> decide

theorem scanScale_ends (hr : Ends rest) :
    scanScale negative significand exponent rest =
      finishReal negative significand exponent rest := by
  cases rest with
  | nil => rfl
  | cons c rest =>
    have hc := ends_ne hr
    unfold scanScale
    split <;> simp_all

theorem takesEnd_exponent (read : Scan Number) {r : List Char}
    (hread : ∀ r, read (c :: r) = scanExponent negative significand exponent r)
    (hc : isDigit c = false) (h : read (c :: r) = .ok (number, rest)) :
    ∃ used, c :: r = used ++ rest ∧ TakesEnd read used number := by
  rw [hread] at h
  obtain ⟨used, rfl, hn, hd, ht⟩ := scanExponent_takes h
  exact ⟨c :: used, rfl, takesEnd_cons hread hc ht hd hn⟩

theorem scanScale_takes (h : scanScale negative significand exponent cs = .ok (number, rest)) :
    ∃ used, cs = used ++ rest ∧
      TakesEnd (scanScale negative significand exponent) used number := by
  have hend : (∀ r, cs ≠ 'e' :: r) → (∀ r, cs ≠ 'E' :: r) →
      ∃ used, cs = used ++ rest ∧
        TakesEnd (scanScale negative significand exponent) used number := by
    intro he hE
    rw [scanScale.eq_3 _ _ _ _ he hE, finishReal_eq_ok] at h
    obtain ⟨hx, rfl⟩ := h
    refine ⟨[], rfl, takesEnd_nil fun rest hr => ?_⟩
    rw [List.nil_append, scanScale_ends hr]
    exact finishReal_eq_ok.mpr ⟨hx, rfl⟩
  cases cs with
  | nil => exact hend (by simp) (by simp)
  | cons c r =>
    by_cases he : c = 'e'
    · subst he
      exact takesEnd_exponent _ (fun _ => rfl) rfl h
    · by_cases hE : c = 'E'
      · subst hE
        exact takesEnd_exponent _ (fun _ => rfl) rfl h
      · exact hend (by simp [he]) (by simp [hE])

theorem scanFraction_digits (hd : ∀ c ∈ ds, isDigit c = true) (hn : ds ≠ []) (hr : Halts rest) :
    scanFraction negative significand exponent (ds ++ rest) =
      scanScale negative (scanSignificand significand 0 ds).1
        (exponent - (scanSignificand significand 0 ds).2.1) rest := by
  have happ := scanSignificand_append significand 0 hd hr
  have hleft := digits_scanSignificand significand 0 hd
  have hcount := count_scanSignificand significand 0 ds
  have hpos : 0 < ds.length := List.length_pos_iff.mpr hn
  generalize scanSignificand significand 0 ds = sig at *
  obtain ⟨v, m, left⟩ := sig
  simp only [scanFraction, happ]
  cases left with
  | cons d left =>
    have hd' : isDigit d = true := hleft d List.mem_cons_self
    have hdrop := dropWhile_digits hleft hr
    simp only [List.cons_append] at hdrop ⊢
    simp [hd', hdrop]
  | nil =>
    have hm : m ≠ 0 := by
      simp only [List.length_nil] at hcount
      omega
    cases rest with
    | nil => simp [hm]
    | cons c rest => simp [hr c rfl, hm]

theorem digits_ne_nil_of_scanFraction (hr : Halts more)
    (h : scanFraction negative significand exponent (ds ++ more) = .ok (number, rest)) :
    ds ≠ [] := by
  rintro rfl
  have hd : ∀ c ∈ ([] : List Char), isDigit c = true := by simp
  have happ := scanSignificand_append significand 0 hd hr
  simp only [scanFraction, happ] at h
  cases more with
  | nil => simp [scanSignificand] at h
  | cons c more => simp [scanSignificand, hr c rfl] at h

/-- Digits and what ends a numeral after them. -/
theorem takes_of_takesEnd {read inner : Scan Number} {ds : List Char}
    (hd : ∀ c ∈ ds, isDigit c = true)
    (hread : ∀ tail, Halts tail → read (ds ++ tail) = inner tail)
    (h : TakesEnd inner used number) :
    EndsInDigit (ds ++ used) ∧ Takes read (ds ++ used) number := by
  refine ⟨endsInDigit_append (endsInDigit_digits hd) h.ends, fun rest hr => ?_⟩
  rw [List.append_assoc, hread _ (h.halts rest hr)]
  exact h.takes rest hr

theorem scanFraction_takes
    (h : scanFraction negative significand exponent cs = .ok (number, rest)) :
    ∃ used, cs = used ++ rest ∧ used ≠ [] ∧ EndsInDigit used ∧
      Takes (scanFraction negative significand exponent) used number := by
  obtain ⟨ds, tail, rfl, hd, hr⟩ := exists_digits cs
  have hn := digits_ne_nil_of_scanFraction hr h
  rw [scanFraction_digits hd hn hr] at h
  obtain ⟨used, rfl, ht⟩ := scanScale_takes h
  obtain ⟨hl, ht⟩ := takes_of_takesEnd hd (fun tail => scanFraction_digits hd hn) ht
  exact ⟨ds ++ used, by simp, by simp [hn], hl, ht⟩

theorem takesEnd_fraction (read : Scan Number) {r : List Char}
    (hread : ∀ r, read ('.' :: r) = scanFraction negative significand exponent r)
    (h : read ('.' :: r) = .ok (number, rest)) :
    ∃ used, '.' :: r = used ++ rest ∧ TakesEnd read used number := by
  rw [hread] at h
  obtain ⟨used, rfl, hn, hd, ht⟩ := scanFraction_takes h
  exact ⟨'.' :: used, rfl, takesEnd_cons hread rfl ht hd hn⟩

theorem scanTail_takes (h : scanTail negative significand cs = .ok (number, rest)) :
    ∃ used, cs = used ++ rest ∧ TakesEnd (scanTail negative significand) used number := by
  have hend : (∀ r, cs ≠ '.' :: r) → (∀ r, cs ≠ 'e' :: r) → (∀ r, cs ≠ 'E' :: r) →
      ∃ used, cs = used ++ rest ∧ TakesEnd (scanTail negative significand) used number := by
    intro hp he hE
    rw [scanTail.eq_4 _ _ _ hp he hE] at h
    cases h
    exact ⟨[], rfl, takesEnd_nil fun rest => scanTail_ends⟩
  cases cs with
  | nil => exact hend (by simp) (by simp) (by simp)
  | cons c r =>
    by_cases hp : c = '.'
    · subst hp
      exact takesEnd_fraction _ (fun _ => rfl) h
    · by_cases he : c = 'e'
      · subst he
        exact takesEnd_exponent _ (fun _ => rfl) rfl h
      · by_cases hE : c = 'E'
        · subst hE
          exact takesEnd_exponent _ (fun _ => rfl) rfl h
        · exact hend (by simp [hp]) (by simp [he]) (by simp [hE])

/-- Whole digits that do not fit only count. -/
theorem scanLongTail_point (hd : ∀ c ∈ ds, isDigit c = true) (r : List Char) :
    scanLongTail negative significand (ds ++ '.' :: r) =
      scanFraction negative significand ds.length r := by
  have hr : Halts ('.' :: r) := halts_cons rfl
  simp only [scanLongTail, takeWhile_digits hd hr, dropWhile_digits hd hr]

theorem scanLongTail_scale (hd : ∀ c ∈ ds, isDigit c = true) (hr : Halts rest)
    (hp : rest.head? ≠ some '.') :
    scanLongTail negative significand (ds ++ rest) =
      scanScale negative significand ds.length rest := by
  simp only [scanLongTail, takeWhile_digits hd hr, dropWhile_digits hd hr]
  split
  · simp at hp
  · rfl

theorem scanLongTail_takes (hd : ∀ c ∈ ds, isDigit c = true) (hr : Halts cs)
    (h : scanLongTail negative significand (ds ++ cs) = .ok (number, rest)) :
    ∃ used, cs = used ++ rest ∧
      TakesEnd (fun cs => scanLongTail negative significand (ds ++ cs)) used number := by
  by_cases hp : cs.head? = some '.'
  · obtain ⟨r, rfl⟩ := List.head?_eq_some_iff.mp hp
    exact takesEnd_fraction (fun cs => scanLongTail negative significand (ds ++ cs))
      (fun r => scanLongTail_point hd r) h
  · rw [scanLongTail_scale hd hr hp] at h
    obtain ⟨used, rfl, ht⟩ := scanScale_takes h
    refine ⟨used, rfl, fun rest hr' => ?_, ht.ends, ht.halts⟩
    have hp' : (used ++ rest).head? ≠ some '.' := by
      cases used with
      | nil =>
        intro hh
        obtain ⟨r, hc⟩ := List.head?_eq_some_iff.mp hh
        rw [List.nil_append] at hc
        subst hc
        exact (ends_ne hr').2.2 rfl
      | cons c used => simpa using hp
    exact (scanLongTail_scale hd (ht.halts rest hr') hp').trans (ht.takes rest hr')

/-- What follows the significand of a numeral: digits that do not fit, and its end. -/
def numeralEnd (negative : Bool) (significand : Nat) (left : List Char) : Scan Number := fun cs =>
  if left = [] then scanTail negative significand cs
  else scanLongTail negative significand (left ++ cs)

theorem scanNumber_digits (hz : c ≠ '0') (hc : isDigit c = true)
    (hd : ∀ c ∈ ds, isDigit c = true) (hr : Halts rest) :
    scanNumber negative (c :: ds ++ rest) =
      numeralEnd negative (scanSignificand (digitValue c) 1 ds).1
        (scanSignificand (digitValue c) 1 ds).2.2 rest := by
  have happ := scanSignificand_append (digitValue c) 1 hd hr
  have hleft := digits_scanSignificand (digitValue c) 1 hd
  generalize scanSignificand (digitValue c) 1 ds = sig at *
  obtain ⟨v, m, left⟩ := sig
  rw [List.cons_append, scanNumber.eq_4 _ _ _ (by simpa using hz)]
  simp only [hc, if_true, happ, numeralEnd]
  cases left with
  | cons d left => simp [hleft d List.mem_cons_self]
  | nil =>
    cases rest with
    | nil => simp
    | cons c rest => simp [hr c rfl]

theorem scanNumber_zero (hr : Halts rest) :
    scanNumber negative ('0' :: rest) = scanTail negative 0 rest := by
  cases rest with
  | nil => rfl
  | cons c rest => simp [scanNumber, hr c rfl]

theorem numeralEnd_takes {left : List Char} (hd : ∀ c ∈ left, isDigit c = true) (hr : Halts cs)
    (h : numeralEnd negative significand left cs = .ok (number, rest)) :
    ∃ used, cs = used ++ rest ∧ TakesEnd (numeralEnd negative significand left) used number := by
  unfold numeralEnd at h ⊢
  by_cases hl : left = []
  · simp only [hl, if_true] at h ⊢
    exact scanTail_takes h
  · simp only [hl, if_false] at h ⊢
    exact scanLongTail_takes hd hr h

/-- A numeral is a zero and its end, or other digits, as many as there are, and theirs. -/
theorem scanNumber_cases (h : scanNumber negative cs = .ok (number, rest)) :
    (∃ tail, Halts tail ∧ cs = '0' :: tail ∧ scanTail negative 0 tail = .ok (number, rest)) ∨
      ∃ c ds tail, c ≠ '0' ∧ isDigit c = true ∧ (∀ c ∈ ds, isDigit c = true) ∧ Halts tail ∧
        cs = c :: ds ++ tail ∧ numeralEnd negative (scanSignificand (digitValue c) 1 ds).1
          (scanSignificand (digitValue c) 1 ds).2.2 tail = .ok (number, rest) := by
  cases cs with
  | nil => cases h
  | cons c r =>
    by_cases hz : c = '0'
    · subst hz
      have hr : Halts r := by
        intro d hd
        obtain ⟨r, rfl⟩ := List.head?_eq_some_iff.mp hd
        cases hs : isDigit d with
        | false => rfl
        | true => simp [scanNumber, hs] at h
      rw [scanNumber_zero hr] at h
      exact .inl ⟨r, hr, rfl, h⟩
    · have hc : isDigit c = true := by
        by_contra hc
        rw [scanNumber.eq_4 _ _ _ (by simpa using hz), if_neg hc] at h
        cases h
      obtain ⟨ds, tail, rfl, hd, hr⟩ := exists_digits r
      rw [← List.cons_append, scanNumber_digits hz hc hd hr] at h
      exact .inr ⟨c, ds, tail, hz, hc, hd, hr, rfl, h⟩

/-- A numeral ends in a digit. -/
theorem scanNumber_takes (h : scanNumber negative cs = .ok (number, rest)) :
    ∃ used, cs = used ++ rest ∧ used ≠ [] ∧ EndsInDigit used ∧
      Takes (scanNumber negative) used number := by
  obtain ⟨tail, hr, rfl, hend⟩ | ⟨c, ds, tail, hz, hc, hd, hr, rfl, hend⟩ := scanNumber_cases h
  · obtain ⟨used, rfl, ht⟩ := scanTail_takes hend
    have hd : ∀ c ∈ ['0'], isDigit c = true := List.forall_mem_singleton.mpr rfl
    obtain ⟨hl, ht⟩ := takes_of_takesEnd hd (fun tail => scanNumber_zero) ht
    exact ⟨'0' :: used, rfl, by simp, hl, ht⟩
  · obtain ⟨used, rfl, ht⟩ := numeralEnd_takes (digits_scanSignificand _ _ hd) hr hend
    obtain ⟨hl, ht⟩ := takes_of_takesEnd (List.forall_mem_cons.mpr ⟨hc, hd⟩)
      (fun tail => scanNumber_digits hz hc hd) ht
    exact ⟨c :: ds ++ used, by simp, by simp, hl, ht⟩

end HandlerHost.Json
