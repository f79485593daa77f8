import HandlerHost.Proofs.Invoker.Flights
import HandlerHost.Proofs.Workspace.Housing

/-!
Where an invocation lives. It has a home from when its directory has been made until that is
removed, and has written into it the files that its stage says. A turn leaves the home as it is; an
operation that is carried out makes the root, or is a deed of the invocation, or does nothing.
-/
namespace HandlerHost.Invoker

open HandlerHost.Host (Errno)
open Child (Life Supervisor)
open Workspace (Deed Home Homes artifacts createRoot)

/-- The workspace that an invocation has, from when its directory is made until it is removed. -/
def Invocation.workspace? (root : String) (v : Invocation) : Option Workspace :=
  match v.stage, v.arrived with
  | .making _, some (.ok ()) => some (.under root v.id)
  | .removing w _, none => some w
  | s, _ => s.workspace?

section

variable (root : String) (request : Request) (id : WorkspaceId)

/-- How an invocation is lodged: its stage and what has arrived there, its operation on its way, and
its home. -/
inductive Lodging :
    Stage → Option Operation.Outcome → Option Operation → Option Home → Prop
  | waiting : Lodging .waiting none none none
  | rooting {i : Interpreter} : Lodging (.rooting i) none (some (.makeRoot root)) none
  | rooted {i : Interpreter} {o : Operation.Outcome} : Lodging (.rooting i) (some o) none none
  | making {i : Interpreter} : Lodging (.making i) none (some (.makeDirectory root id)) none
  | unmade {i : Interpreter} {e : Workspace.Error} :
      Lodging (.making i) (some (.error e)) none none
  | made {i : Interpreter} :
      Lodging (.making i) (some (.ok ())) none (some ⟨id.directoryName, []⟩)
  | writing {i : Interpreter} {name content : String} {files rest : List (String × String)}
      (ha : artifacts request = files ++ (name, content) :: rest) :
      Lodging (.writing i (.under root id) rest) none (some (.write (.under root id) name content))
        (some ⟨id.directoryName, files⟩)
  | unwritten {i : Interpreter} {e : Workspace.Error} {file : String × String}
      {files rest : List (String × String)} (ha : artifacts request = files ++ file :: rest) :
      Lodging (.writing i (.under root id) rest) (some (.error e)) none
        (some ⟨id.directoryName, files⟩)
  | written {i : Interpreter} {files rest : List (String × String)}
      (ha : artifacts request = files ++ rest) :
      Lodging (.writing i (.under root id) rest) (some (.ok ())) none
        (some ⟨id.directoryName, files⟩)
  | running {life : Life} {s : Supervisor} :
      Lodging (.running (.under root id) life s) none none
        (some ⟨id.directoryName, artifacts request⟩)
  | removing {r : Result} {files : List (String × String)} :
      Lodging (.removing (.under root id) r) none (some (.remove (.under root id)))
        (some ⟨id.directoryName, files⟩)
  | removed {r : Result} {o : Operation.Outcome} :
      Lodging (.removing (.under root id) r) (some o) none none
  | ended {e : Ending} : Lodging (.ended e) none none none

end

variable {root : String} {request : Request} {id : WorkspaceId} {s : Stage}
  {arrived : Option Operation.Outcome} {flight : Option Operation} {home : Option Home}
  {v : Invocation} {o : Operation} {out : Operation.Outcome} {h h' : Host} {homes homes' : Homes}
  {n : Nat} {fault : Option Errno}

/-- An operation changes nothing but files. -/
theorem Operation.host_attempt (ho : o.attempt h fault = (h', out)) :
    ∃ fs, h' = { h with files := fs } := by
  obtain rfl : (o.attempt h fault).1 = h' := congrArg Prod.fst ho
  unfold attempt
  split
  · exact Workspace.host_remove _
  · exact ⟨_, rfl⟩
  · unfold perform
    split
    · unfold createRoot
      split <;> exact ⟨_, rfl⟩
    · unfold Workspace.createDirectory
      dsimp only
      split <;> exact ⟨_, rfl⟩
    · unfold Workspace.writeFile
      split
      · exact ⟨_, rfl⟩
      · split <;> exact ⟨_, rfl⟩
    · exact Workspace.host_remove _

/-- The workspace of an invocation is in its home. -/
theorem workspace?_of_lodging
    (hl : Lodging root v.request v.id v.stage v.arrived flight home) :
    v.workspace? root = home.map (fun _ => .under root v.id) ∧
      ∀ x, home = some x → x.name = v.id.directoryName := by
  obtain ⟨request, id, cancelled, s, arrived⟩ := v
  dsimp only at hl ⊢
  cases hl <;> simp [Invocation.workspace?, Stage.workspace?]

/-- When the last file has been written, all files of the request are in the home. -/
theorem home_of_written {i : Interpreter} {w : Workspace}
    (hl : Lodging root request id (.writing i w []) (some (.ok ())) flight home) :
    w = .under root id ∧ home = some ⟨id.directoryName, artifacts request⟩ := by
  cases hl with
  | written ha => exact ⟨rfl, by rw [ha, List.append_nil]⟩

theorem arrived_of_flight (hl : Lodging root request id s arrived (some o) home) :
    arrived = none := by
  cases hl <;> rfl

/-- An operation that is carried out makes the root or is a deed, or does nothing. -/
theorem lodging_attempt (homes : Homes) (n : Nat)
    (hl : Lodging root request id s arrived (some o) (homes n))
    (ho : o.attempt h fault = (h', out)) :
    ∃ homes', Lodging root request id s (some out) none (homes' n) ∧
      (homes' = homes ∧ h' = h ∨
        homes' = homes ∧ o = .makeRoot root ∧ h' = (createRoot h root).1 ∨
        Deed root id n homes h homes' h') := by
  generalize hx : homes n = home at hl
  cases hl with
  | rooting =>
    refine ⟨homes, by rw [hx]; exact .rooted, ?_⟩
    cases fault with
    | some e =>
      cases ho
      exact .inl ⟨rfl, rfl⟩
    | none => exact .inr (.inl ⟨rfl, rfl, (congrArg Prod.fst ho).symm⟩)
  | making =>
    cases fault with
    | some e =>
      cases ho
      exact ⟨homes, by rw [hx]; exact .unmade, .inl ⟨rfl, rfl⟩⟩
    | none =>
      simp only [Operation.attempt, Operation.perform] at ho
      cases hc : Workspace.createDirectory h root id with
      | mk h₁ r =>
        rw [hc] at ho
        cases r with
        | error e =>
          cases ho
          refine ⟨homes, by rw [hx]; exact .unmade, .inl ⟨rfl, ?_⟩⟩
          unfold Workspace.createDirectory at hc
          dsimp only at hc
          split at hc <;> cases hc
          rfl
        | ok w =>
          cases ho
          refine ⟨_, ?_, .inr (.inr (.make hx hc))⟩
          rw [Function.update_self]
          exact .made
  | @writing _ name content files rest ha =>
    cases fault with
    | some e =>
      cases ho
      exact ⟨homes, by rw [hx]; exact .unwritten ha, .inl ⟨rfl, rfl⟩⟩
    | none =>
      simp only [Operation.attempt, Operation.perform] at ho
      cases out with
      | error e =>
        refine ⟨homes, by rw [hx]; exact .unwritten ha, .inl ⟨rfl, ?_⟩⟩
        unfold Workspace.writeFile at ho
        split at ho
        · cases ho
          rfl
        · split at ho <;> cases ho
          rfl
      | ok =>
        have hp : Host.FileSystem.IsPlain name :=
          Workspace.isPlain_artifacts (name, content) (by rw [ha]; simp)
        refine ⟨_, ?_, .inr (.inr (.write hx hp (Workspace.lookup_of_artifacts ha) ho))⟩
        rw [Function.update_self]
        exact .written (by rw [ha, List.append_assoc, List.singleton_append])
  | removing =>
    obtain rfl : (Workspace.under root id).remove h = h' := by
      cases fault <;> exact congrArg Prod.fst ho
    refine ⟨_, ?_, .inr (.inr (.remove hx))⟩
    rw [Function.update_self]
    exact .removed

theorem lodging_cancel (hl : Lodging root request id s arrived flight home) :
    Lodging root request id s.cancel arrived flight home := by
  cases s with
  | running =>
    cases hl
    exact .running
  | _ => exact hl

namespace Pool

variable {p : Pool} {a : Action} {es : List Effect}

/-- A turn leaves the home as it is, and begins an operation or none. -/
theorem lodging_turn (ht : Turn p n v a es s) (hroot : p.root = root)
    (hl : Lodging root v.request v.id v.stage v.arrived flight home) :
    flight = none ∧ ∃ o : Option Operation, es.filterMap Effect.operation? = o.toList ∧
      Lodging root v.request v.id s none o home := by
  obtain ⟨request, id, cancelled, stage, arrived⟩ := v
  dsimp only at hl ⊢
  subst hroot
  cases ht with
  | forgo hst _ =>
    cases hst
    cases hl
    exact ⟨rfl, none, rfl, .ended⟩
  | unresolved hst _ _ _ =>
    cases hst
    cases hl
    exact ⟨rfl, none, rfl, .ended⟩
  | root hst _ _ _ =>
    cases hst
    cases hl
    exact ⟨rfl, _, rfl, .rooting⟩
  | directory hst ha =>
    cases hst
    cases ha
    cases hl
    exact ⟨rfl, _, rfl, .making⟩
  | unprovided hst ha =>
    cases ha
    rcases hst with hst | hst <;> cases hst <;> cases hl <;> exact ⟨rfl, none, rfl, .ended⟩
  | first hst ha hw hr =>
    cases hst
    cases ha
    cases hl
    subst hw
    exact ⟨rfl, _, rfl, .writing hr⟩
  | next hst ha =>
    cases hst
    cases ha
    cases hl with
    | written ha => exact ⟨rfl, _, rfl, .writing ha⟩
  | unwritten hst ha =>
    cases hst
    cases ha
    cases hl
    exact ⟨rfl, _, rfl, .removing⟩
  | start hst ha hr =>
    cases hst
    cases ha
    cases hl with
    | written ha =>
      rw [List.append_nil] at ha
      exact ⟨rfl, none, rfl, ha ▸ .running⟩
  | unstarted hst ha hr =>
    cases hst
    cases ha
    cases hl
    exact ⟨rfl, _, rfl, .removing⟩
  | removed hst ha =>
    cases hst
    cases ha
    cases hl
    exact ⟨rfl, none, rfl, .ended⟩
  | watch hst _ =>
    cases hst
    cases hl
    exact ⟨rfl, none, operations_killing, .running⟩
  | finish hst _ =>
    cases hst
    cases hl
    refine ⟨rfl, some (.remove (.under p.root id)), ?_, .removing⟩
    rw [List.filterMap_append, operations_killing]
    rfl

end Pool

end HandlerHost.Invoker
