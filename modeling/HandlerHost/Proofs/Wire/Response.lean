import HandlerHost.Response
import HandlerHost.Proofs.Json.RoundTrip

/-!
Responses as values. A response is decoded from its own texts, and coercing its value gives the
response back: every coercion leaves a value alone that is already of the wanted kind. So coercing
what was coerced before changes nothing, also when it went through text in between.
-/
namespace HandlerHost.Response

open Json (Value Decoder Shape)
open Json.Value (Integral)
open Text (Entries Dictionary)

variable {r : Response}

theorem integral_headersValue {headers : Dictionary String} : Integral (headersValue headers) := by
  refine .object trivial ?_
  intro m hm
  obtain ⟨e, -, rfl⟩ := List.mem_map.mp hm
  exact .string

theorem integral_toValue : Integral r.toValue := by
  refine .object trivial ?_
  intro m hm
  simp only [List.mem_cons, List.not_mem_nil, or_false] at hm
  rcases hm with rfl | rfl | rfl
  · exact Value.integral_ofNat (Nat.lt_trans r.statusCode.toNat_lt (by decide))
  · exact integral_headersValue
  · exact .string

theorem depth_headersValue {headers : Dictionary String} : (headersValue headers).depth ≤ 1 := by
  apply Value.depth_object_le
  intro m hm
  obtain ⟨e, -, rfl⟩ := List.mem_map.mp hm
  exact Nat.le_refl 0

theorem depth_toValue : r.toValue.depth ≤ 2 := by
  apply Value.depth_object_le
  intro m hm
  simp only [List.mem_cons, List.not_mem_nil, or_false] at hm
  rcases hm with rfl | rfl | rfl
  · exact Nat.zero_le 1
  · exact depth_headersValue
  · exact Nat.zero_le 1

theorem reads_toValue : decoder.Reads r.toValue r := by
  have hheaders : (Decoder.dictionary .string).Reads (headersValue r.headers) r.headers :=
    Decoder.reads_dictionary fun _ _ => Decoder.reads_string
  apply Shape.reads_object
  apply Shape.yields_cons rfl rfl (Decoder.reads_field Decoder.reads_word16)
  apply Shape.yields_cons rfl rfl (Decoder.reads_field hheaders)
  apply Shape.yields_cons rfl rfl (Decoder.reads_field Decoder.reads_string)
  exact Shape.yields_nil rfl

/-- A status is what the field holds, if that is a number of 16 bits. -/
theorem toNat_statusOf {field : Option Value} :
    (statusOf field).toNat =
      match statusWord? field with
      | some n => if n.toNat < UInt16.size then n.toNat else 200
      | none => 200 := by
  rw [statusOf]
  cases statusWord? field with
  | none => rfl
  | some n =>
    dsimp only
    split
    · rename_i hn
      rw [UInt64.toNat_toUInt16]
      exact Nat.mod_eq_of_lt hn
    · rfl

theorem statusWord?_integer {i : Int} : statusWord? (some (.ofInt i)) =
    if 0 ≤ i ∧ i < UInt64.size then some (UInt64.ofNat i.toNat) else none := by
  simp only [statusWord?, Value.ofInt, Bool.and_eq_true, decide_eq_true_eq]

/-- An integer of 16 bits is coerced to itself, and every other one to the default. -/
theorem toNat_statusOf_integer {i : Int} : (statusOf (some (.ofInt i))).toNat =
    if 0 ≤ i ∧ i < UInt16.size then i.toNat else 200 := by
  have hsize : UInt16.size = 65536 := rfl
  have hsize' : UInt64.size = 18446744073709551616 := rfl
  rw [toNat_statusOf, statusWord?_integer]
  by_cases hi : 0 ≤ i ∧ i < UInt64.size
  · have hn : (UInt64.ofNat i.toNat).toNat = i.toNat := UInt64.toNat_ofNat_of_lt' (by omega)
    rw [if_pos hi]
    dsimp only
    rw [hn]
    by_cases hs : i.toNat < UInt16.size
    · rw [if_pos hs, if_pos (by omega)]
    · rw [if_neg hs, if_neg (by omega)]
  · rw [if_neg hi, if_neg (by omega)]

/-- Every status is coerced to itself. -/
theorem statusOf_word16 {x : UInt16} : statusOf (some (.ofNat x.toNat)) = x := by
  have hx : x.toNat < UInt16.size := x.toNat_lt
  apply UInt16.toNat_inj.mp
  have hs : (statusOf (some (.ofInt x.toNat))).toNat = _ := toNat_statusOf_integer
  rwa [if_pos (by omega)] at hs

/-- Headers that are texts are coerced to themselves. -/
theorem headersOf_headersValue {headers : Dictionary String} :
    headersOf (some (headersValue headers)) = headers := by
  have h : ∀ es : Entries String, (es.map fun e => (e.1, Value.string e.2)).filterMap
      (fun e => (textOf e.2).map fun s => (e.1, s)) = es := by
    intro es
    induction es with
    | nil => rfl
    | cons e es ih =>
      rw [List.map_cons, List.filterMap_cons, ih]
      rfl
  simp only [headersOf, headersValue]
  rw [h, Dictionary.ofList_entries]

/-- An object is coerced by what it has under three keys, in whatever order its members are. -/
theorem ofValue_object {ms : List (String × Value)}
    (hs : Entries.find? "statusCode" ms = some (.ofNat r.statusCode.toNat))
    (hh : Entries.find? "headers" ms = some (headersValue r.headers))
    (hb : Entries.find? "body" ms = some (.string r.body)) : ofValue (.object ms) = r := by
  rw [ofValue, hs, hh, hb, statusOf_word16, headersOf_headersValue]
  rfl

theorem ofValue_toValue : ofValue r.toValue = r := by
  apply ofValue_object
  · simp
  · simp
  · simp

theorem ordered_headersValue {headers : Dictionary String} :
    (headersValue headers).ordered = headersValue headers := by
  apply Value.ordered_of_canonical
  refine .object ?_ ?_
  · exact List.pairwise_map.mpr headers.ascending
  · intro m hm
    obtain ⟨e, -, rfl⟩ := List.mem_map.mp hm
    exact .string

/-- The members in key order make the same response. -/
theorem ofValue_ordered : ofValue r.toValue.ordered = r := by
  have ho : r.toValue.ordered = .object (Entries.ofList [("statusCode", .ofNat r.statusCode.toNat),
      ("headers", headersValue r.headers), ("body", .string r.body)]) := by
    simp [toValue, Value.ordered, Value.orderedMembers, ordered_headersValue, Value.ofNat]
  rw [ho]
  apply ofValue_object
  · simp [Entries.ofList, Entries.find?_insert]
  · simp [Entries.ofList, Entries.find?_insert]
  · simp [Entries.ofList, Entries.find?_insert]

/-- Coercion is a retraction onto responses, directly and through text: the value of a response,
with its members as they are written or in key order, and what is read from either of its texts,
are coerced to the response. So what any value is coerced to is coerced to itself. -/
theorem ofValue_retraction :
    (∀ r : Response, ofValue r.toValue = r ∧ ofValue r.toValue.ordered = r ∧
      (∃ v, Value.read r.toValue.compact = .ok v ∧ ofValue v = r) ∧
      ∃ v, Value.read r.toValue.pretty = .ok v ∧ ofValue v = r) ∧
    ∀ v : Value, ofValue (ofValue v).toValue = ofValue v ∧
      ∃ w, Value.read (ofValue v).toValue.compact = .ok w ∧ ofValue w = ofValue v := by
  have hdepth : ∀ r : Response, r.toValue.depth ≤ Json.maxDepth :=
    fun r => Nat.le_trans depth_toValue (by decide)
  have hcompact : ∀ r : Response, Value.read r.toValue.compact = .ok r.toValue.ordered :=
    fun r => Value.read_compact integral_toValue (hdepth r)
  have hpretty : ∀ r : Response, Value.read r.toValue.pretty = .ok r.toValue.ordered :=
    fun r => Value.read_pretty integral_toValue (hdepth r)
  refine ⟨fun r => ⟨ofValue_toValue, ofValue_ordered, ?_, ?_⟩, fun v => ⟨ofValue_toValue, ?_⟩⟩
  · exact ⟨_, hcompact r, ofValue_ordered⟩
  · exact ⟨_, hpretty r, ofValue_ordered⟩
  · exact ⟨_, hcompact (ofValue v), ofValue_ordered⟩

end HandlerHost.Response
