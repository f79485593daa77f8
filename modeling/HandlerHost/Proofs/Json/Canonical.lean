import HandlerHost.Json.Value
import HandlerHost.Proofs.Text.Dictionary

/-!
The shape of JSON values: how deep brackets nest, which values a text can denote, and the order
that reading gives to the members of objects.
-/
namespace HandlerHost.Json

open Text (Entries)

/-- An integer of 64 bits or a binary fraction: a number that a text can denote. -/
def Number.Held : Number → Prop
  | integer i => fits i = true
  | real _ => True

namespace Value

variable {v : Value} {vs : List Value} {ms : List (String × Value)} {m : String × Value}

/-- Induction over a value with a hypothesis for each item and each member's value. -/
@[elab_as_elim]
theorem induction {motive : Value → Prop} (null : motive .null) (bool : ∀ b, motive (.bool b))
    (number : ∀ n, motive (.number n)) (string : ∀ s, motive (.string s))
    (array : ∀ vs, (∀ v ∈ vs, motive v) → motive (.array vs))
    (object : ∀ ms, (∀ m ∈ ms, motive m.2) → motive (.object ms)) (v : Value) : motive v :=
  match v with
  | .null => null
  | .bool b => bool b
  | .number n => number n
  | .string s => string s
  | .array vs => array vs fun v _ => induction null bool number string array object v
  | .object ms => object ms fun m _ => induction null bool number string array object m.2
termination_by sizeOf v
decreasing_by
  · rename_i hv
    have := List.sizeOf_lt_of_mem hv
    simp_wf
    omega
  · rename_i hm
    have := List.sizeOf_lt_of_mem hm
    obtain ⟨k, v⟩ := m
    simp_wf
    simp only [Prod.mk.sizeOf_spec] at this
    omega

mutual

/-- How many brackets stand one inside another. -/
def depth : Value → Nat
  | array vs => depthOfItems vs + 1
  | object ms => depthOfMembers ms + 1
  | _ => 0

def depthOfItems : List Value → Nat
  | [] => 0
  | v :: vs => max v.depth (depthOfItems vs)

def depthOfMembers : List (String × Value) → Nat
  | [] => 0
  | (_, v) :: ms => max v.depth (depthOfMembers ms)

end

theorem depth_lt_array (h : v ∈ vs) : v.depth < (array vs).depth := by
  rw [depth, Nat.lt_succ_iff]
  induction h with
  | head vs => exact Nat.le_max_left _ _
  | tail w _ ih => exact Nat.le_trans ih (Nat.le_max_right _ _)

theorem depth_lt_object (h : m ∈ ms) : m.2.depth < (object ms).depth := by
  rw [depth, Nat.lt_succ_iff]
  induction h with
  | head ms => exact Nat.le_max_left _ _
  | tail m' _ ih => exact Nat.le_trans ih (Nat.le_max_right _ _)

theorem depth_array_le {n : Nat} (h : ∀ v ∈ vs, v.depth ≤ n) : (array vs).depth ≤ n + 1 := by
  rw [depth]
  apply Nat.succ_le_succ
  induction vs with
  | nil => exact Nat.zero_le n
  | cons v vs ih =>
    obtain ⟨hv, hvs⟩ := List.forall_mem_cons.mp h
    exact Nat.max_le.mpr ⟨hv, ih hvs⟩

theorem depth_object_le {n : Nat} (h : ∀ m ∈ ms, m.2.depth ≤ n) : (object ms).depth ≤ n + 1 := by
  rw [depth]
  apply Nat.succ_le_succ
  induction ms with
  | nil => exact Nat.zero_le n
  | cons m ms ih =>
    obtain ⟨hm, hms⟩ := List.forall_mem_cons.mp h
    exact Nat.max_le.mpr ⟨hm, ih hms⟩

/-- Every number and the members of every object are as demanded. -/
inductive Each (N : Number → Prop) (O : List (String × Value) → Prop) : Value → Prop
  | null : Each N O .null
  | bool {b : Bool} : Each N O (.bool b)
  | number {n : Number} (h : N n) : Each N O (.number n)
  | string {s : String} : Each N O (.string s)
  | array {vs : List Value} (h : ∀ v ∈ vs, Each N O v) : Each N O (.array vs)
  | object {ms : List (String × Value)} (ho : O ms) (h : ∀ m ∈ ms, Each N O m.2) :
      Each N O (.object ms)

/-- What a text can denote: the members of every object ascend. -/
def Canonical (v : Value) : Prop := v.Each Number.Held Entries.Ascending

/-- No number is a binary fraction. -/
def Exact (v : Value) : Prop := v.Each (fun n => ∃ i, n = .integer i) fun _ => True

/-- Every number is an integer of 64 bits. -/
def Integral (v : Value) : Prop :=
  v.Each (fun n => ∃ i, n = .integer i ∧ Number.fits i = true) fun _ => True

section Each

variable {N N' M : Number → Prop} {O O' P : List (String × Value) → Prop}

theorem each_items (h : Each N O (.array vs)) : ∀ v ∈ vs, Each N O v := by
  cases h with
  | array h => exact h

theorem each_members (h : Each N O (.object ms)) : ∀ m ∈ ms, Each N O m.2 := by
  cases h with
  | object _ h => exact h

/-- Two demands that are met together make a third. -/
theorem each_and (h : Each N O v) (h' : Each N' O' v) (hn : ∀ n, N n → N' n → M n)
    (ho : ∀ ms, O ms → O' ms → P ms) : Each M P v := by
  induction h with
  | null => exact .null
  | bool => exact .bool
  | number h =>
    cases h' with
    | number h' => exact .number (hn _ h h')
  | string => exact .string
  | array _ ih => exact .array fun v hv => ih v hv (each_items h' v hv)
  | object h _ ih =>
    refine .object ?_ fun m hm => ih m hm (each_members h' m hm)
    cases h' with
    | object h' _ => exact ho _ h h'

end Each

theorem integral_of_canonical (hc : Canonical v) (he : Exact v) : Integral v := by
  apply each_and hc he
  · rintro n hn ⟨i, rfl⟩
    exact ⟨i, rfl, hn⟩
  · intro ms _ _
    trivial

/-- A natural number of 64 bits. -/
theorem integral_ofNat {n : Nat} (h : n < UInt64.size) : Integral (.ofNat n) := by
  refine .number ⟨_, rfl, ?_⟩
  have hl : Int64.minValue.toInt ≤ 0 := by decide
  simp only [Number.fits, Bool.and_eq_true, decide_eq_true_eq]
  omega

mutual

/-- The members of every object in ascending key order; of members with one key the last counts. -/
def ordered : Value → Value
  | array vs => array (orderedItems vs)
  | object ms => object (Entries.ofList (orderedMembers ms))
  | null => null
  | bool b => bool b
  | number n => number n
  | string s => string s

def orderedItems : List Value → List Value
  | [] => []
  | v :: vs => v.ordered :: orderedItems vs

def orderedMembers : List (String × Value) → List (String × Value)
  | [] => []
  | (k, v) :: ms => (k, v.ordered) :: orderedMembers ms

end

theorem orderedItems_eq_self (h : ∀ v ∈ vs, v.ordered = v) : orderedItems vs = vs := by
  induction vs with
  | nil => rfl
  | cons v vs ih =>
    rw [orderedItems, h v List.mem_cons_self, ih fun w hw => h w (List.mem_cons_of_mem _ hw)]

theorem orderedMembers_eq_self (h : ∀ m ∈ ms, m.2.ordered = m.2) : orderedMembers ms = ms := by
  induction ms with
  | nil => rfl
  | cons m ms ih =>
    obtain ⟨k, v⟩ := m
    have hv : v.ordered = v := h (k, v) List.mem_cons_self
    rw [orderedMembers, hv, ih fun m hm => h m (List.mem_cons_of_mem _ hm)]

/-- What a text can denote is in order. -/
theorem ordered_of_canonical (h : Canonical v) : v.ordered = v := by
  induction v using induction with
  | null => rfl
  | bool b => rfl
  | number n => rfl
  | string s => rfl
  | array vs ih => rw [ordered, orderedItems_eq_self fun v hv => ih v hv (each_items h v hv)]
  | object ms ih =>
    rw [ordered, orderedMembers_eq_self fun m hm => ih m hm (each_members h m hm)]
    cases h with
    | object ha _ => rw [Entries.ofList_of_ascending ha]

end Value

end HandlerHost.Json
