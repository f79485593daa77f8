import HandlerHost.Cli.Run
import HandlerHost.Proofs.Config.Variable
import HandlerHost.Proofs.Invoker.Arrival
import Mathlib

/-!
How many slots a configuration may ask for. Validation asks for one at least and knows no greatest
number, and every number that 64 bits hold with a sign can be asked for. A pool has a greatest
number, so some configurations are accepted that no pool can be made for.
-/
namespace HandlerHost.Config

open Invoker (Move Pool)
open Text (Dictionary Entries)

variable {c : Config} {h : Host} {es : Layer} {w : Said} {path : Option String} {n : Nat}

/-- A configuration that is read from a text, from a file or from layers. -/
def Accepted (c : Config) : Prop :=
  (∃ text, ofText text = .ok c) ∨ (∃ h path, ofFile h path = .ok c) ∨ ∃ h path, load h path = .ok c

theorem valid_of_ofSettings {s : Setting} (h : ofSettings s = .ok c) : c.Valid := by
  unfold ofSettings at h
  split at h
  · cases h
  · split at h
    · cases h
    · rename_i hd
      obtain rfl := Except.ok.inj h
      exact defect?_eq_none.mp hd

/-- What is read has been validated, wherever it is read from. -/
theorem Accepted.valid (hc : Accepted c) : c.Valid := by
  rcases hc with ⟨text, ht⟩ | ⟨h, path, hf⟩ | ⟨h, path, hl⟩
  · rw [ofText] at ht
    cases hr : readLayer text with
    | error e => simp [hr, bind, Except.bind] at ht
    | ok es =>
      rw [hr] at ht
      exact valid_of_ofSettings ht
  · rw [ofFile] at hf
    cases hr : fileLayer h path with
    | error e => simp [hr, bind, Except.bind] at hf
    | ok es =>
      rw [hr] at hf
      exact valid_of_ofSettings hf
  · obtain ⟨es, hes⟩ := exists_fileEntries hl
    rw [load_eq hes] at hl
    exact valid_of_ofSettings hl

theorem load_of_valid (hes : fileEntries h path = .ok es) (hf : FileSays es w)
    (he : EnvironmentSays h w) (hv : w.Valid) : load h path = .ok w.config := by
  obtain ⟨hnonneg, hvalid⟩ := (Said.valid_iff hf he).mp hv
  rw [load_eq hes, ofSettings]
  simp only [(ofEntries?_layered (tidy_fileEntries hes) hf he).1 hnonneg,
    defect?_eq_none.mpr hvalid]

/-! ### A number of slots that the environment asks for -/

/-- A machine whose environment sets the number of slots and nothing else. -/
def slotsHost (n : Nat) : Host :=
  ⟨⟨[]⟩, [], .ofList [(NumberKey.concurrency.variableName, toString (n : Int))]⟩

def slotsSaid (n : Nat) : Said where
  inFile _ := none
  inEnvironment
    | .concurrency => some n
    | _ => none
  isolationInFile := none
  isolationInEnvironment := none
  interpreters := .empty

theorem fileSays_nil : FileSays [] (slotsSaid n) where
  number _ _ := rfl
  bounded _ _ hi := by cases hi
  isolation _ := rfl
  interpreters := rfl
  noRoot := rfl
  plain _ he := by cases he

theorem envValue?_slotsHost {name : String} : (slotsHost n).envValue? name =
    if name = NumberKey.concurrency.variableName then some (toString (n : Int)) else none := by
  have hentries : (slotsHost n).env.entries =
      [(NumberKey.concurrency.variableName, toString (n : Int))] := rfl
  rw [Host.envValue?, Dictionary.get?, hentries, Entries.find?_cons, Entries.find?_nil]

theorem environmentSays_slots (hn : FitsSigned n) :
    EnvironmentSays (slotsHost n) (slotsSaid n) where
  number k := by
    rw [envValue?_slotsHost]
    cases k with
    | concurrency => rw [if_pos rfl, Option.map_some, signed?_toString hn]; rfl
    | _ => rfl
  isolation := by
    rw [envValue?_slotsHost]
    rfl
  plain e he key hkey _ := .inl ⟨.concurrency, congrArg Prod.fst (List.mem_singleton.mp he)⟩

theorem valid_slotsSaid (hn : 0 < n) : (slotsSaid n).Valid where
  default_pos := (by decide : (0 : Int) < 7000)
  max_pos := (by decide : (0 : Int) < 60000)
  default_le_max := (by decide : (7000 : Int) ≤ 60000)
  concurrency_pos := Int.natCast_pos.mpr hn
  logLines_nonneg := (by decide : (0 : Int) ≤ 1000)
  entries _ he := by cases he

/-- Every positive number of 64 bits with a sign is accepted. -/
theorem exists_accepted (hn : 0 < n) (hf : FitsSigned n) :
    ∃ c, Accepted c ∧ c.maxConcurrent.toNat = n := by
  have hload : load (slotsHost n) none = .ok (slotsSaid n).config :=
    load_of_valid rfl fileSays_nil (environmentSays_slots hf) (valid_slotsSaid hn)
  refine ⟨(slotsSaid n).config, .inr (.inr ⟨_, _, hload⟩), ?_⟩
  exact Said.toNat_word fileSays_nil (environmentSays_slots hf) .concurrency

/-! ### Pools -/

/-- Whether there is a pool depends on the number of slots alone. -/
theorem ofConfig?_eq : Pool.ofConfig? c h =
    if c.maxConcurrent.toNat ≤ Pool.maxSlots then
      some ⟨c, h, c.maxConcurrent.toNat, [], [], []⟩
    else none := by
  simp only [Pool.ofConfig?, ← Nat.not_lt, ite_not]

/-- Of an accepted configuration a pool is made with just the slots that it asks for, if they are no
more than a pool can have: at first all of them are free, there is one at least, and whatever is
done they are free or held. If they are more there is no pool, and a call breaks down. Every
positive number that 64 bits hold with a sign is asked for by some accepted configuration. -/
theorem slots_of_accepted (h : Host) :
    (∀ c, Accepted c → 0 < c.maxConcurrent.toNat ∧
      (c.maxConcurrent.toNat ≤ Pool.maxSlots → ∃ p, Pool.ofConfig? c h = some p ∧ p.config = c ∧
        p.free = c.maxConcurrent.toNat ∧
        ∀ ms : List Move, (p.play ms).free + (p.play ms).held = c.maxConcurrent.toNat) ∧
      (Pool.maxSlots < c.maxConcurrent.toNat → Pool.ofConfig? c h = none ∧
        ∀ payload id, Cli.runPayload h c payload id = .crash h)) ∧
    ∀ n : Nat, 0 < n → n ≤ 9223372036854775807 →
      ∃ c, Accepted c ∧ c.maxConcurrent.toNat = n := by
  refine ⟨fun c hc => ⟨?_, fun hle => ?_, fun hlt => ?_⟩, fun n hn hle => ?_⟩
  · exact UInt64.lt_iff_toNat_lt.mp hc.valid.concurrency_pos
  · have hp : Pool.ofConfig? c h = some ⟨c, h, c.maxConcurrent.toNat, [], [], []⟩ := by
      rw [ofConfig?_eq, if_pos hle]
    exact ⟨_, hp, rfl, rfl, fun ms => Pool.slots_play hp⟩
  · have hp : Pool.ofConfig? c h = none := by rw [ofConfig?_eq, if_neg (Nat.not_le.mpr hlt)]
    refine ⟨hp, fun payload id => ?_⟩
    rw [Cli.runPayload, hp]
  · have hmin : Int64.minValue.toInt ≤ 0 := by decide
    have hmax : Int64.maxValue.toInt = 9223372036854775807 := by decide
    exact exists_accepted hn ⟨by omega, by omega⟩

/-- As many slots as a pool can have. -/
theorem slots_of_accepted_most :
    let c : Config := { empty with maxConcurrent := 2305843009213693951 }
    Accepted c ∧ ∃ p, Pool.ofConfig? c ⟨⟨[]⟩, [], .empty⟩ = some p ∧
      p.free = 2305843009213693951 := by
  intro c
  have htext : ofText "max_concurrent = 2305843009213693951" = .ok c := by decide +kernel
  have haccepted : Accepted c := .inl ⟨_, htext⟩
  obtain ⟨hserves, -⟩ := slots_of_accepted ⟨⟨[]⟩, [], .empty⟩
  obtain ⟨-, hpool, -⟩ := hserves c haccepted
  obtain ⟨p, hp, -, hfree, -⟩ := hpool (by decide)
  exact ⟨haccepted, p, hp, hfree⟩

/-- A configuration is accepted that wants one slot more than a pool can have. -/
theorem accepted_without_pool :
    ∃ c, ofText "max_concurrent = 2305843009213693952" = .ok c ∧
      Pool.ofConfig? c ⟨⟨[]⟩, [], .empty⟩ = none := by
  refine ⟨{ empty with maxConcurrent := 2305843009213693952 }, ?_, rfl⟩
  decide +kernel

end HandlerHost.Config
