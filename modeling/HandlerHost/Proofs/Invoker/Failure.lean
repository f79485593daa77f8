import HandlerHost.Proofs.Invoker.Course
import HandlerHost.Proofs.Json.RoundTrip

/-!
Where an invocation can fail before its process runs. Whichever step fails, its message becomes the
result, and nothing that comes afterwards changes that.
-/
namespace HandlerHost.Invoker

open HandlerHost.Host (Errno)
open Json (Value)

variable {p q : Pool} {v w : Invocation} {n : Nat} {a : Pool.Action} {es : List Effect} {s : Stage}
  {r : Result} {m : Move} {ms : List Move} {text : String}

namespace Stage

/-- The result that an invocation has come to, though its workspace may still be there. -/
def result? : Stage → Option Result
  | removing _ r => some r
  | ended e => e.result?
  | _ => none

/-- The stages in which a workspace is made and filled. -/
def provisions : Stage → Bool
  | rooting _ => true
  | making _ => true
  | writing _ _ _ => true
  | _ => false

end Stage

/-- A failure of the host's own, which tells a message and no more. -/
structure Reports (r : Result) (text : String) : Prop where
  outcome : r.outcome = .failed
  provenance : r.provenance = .synthetic
  exitCode : r.exitCode = none
  status : r.response.statusCode = 500
  body : Value.read r.response.body = .ok (.object [("error", .string text)])

theorem reports_failed (text : String) : Reports (.failed text []) text := by
  have hintegral : (Value.object [("error", .string text)]).Integral := by
    refine .object trivial ?_
    simpa using .string
  have hdepth : (Value.object [("error", .string text)]).depth ≤ Json.maxDepth :=
    Nat.le_of_ble_eq_true rfl
  exact ⟨rfl, rfl, rfl, rfl, Value.read_compact hintegral hdepth⟩

namespace Pool

/-- The first invocation of a pool has come to a result. -/
def Decided (r : Result) (p : Pool) : Prop :=
  ∃ v, p.invocations[0]? = some v ∧ v.stage.result? = some r

theorem decided_turn (ht : Turn p n v a es s) (hr : v.stage.result? = some r) :
    s.result? = some r := by
  cases ht with
  | removed hs _ =>
    rw [hs] at hr
    exact hr
  | unprovided hs _ => rcases hs with hs | hs <;> simp [hs, Stage.result?] at hr
  | _ => simp_all [Stage.result?]

theorem decided_step (hd : Decided r p) (ha : a.isOwn = true) (hq : Step p a q) : Decided r q := by
  obtain ⟨v, hv, hr⟩ := hd
  cases hq with
  | idle => exact ⟨v, hv, hr⟩
  | accept => cases ha
  | abort => cases ha
  | settle =>
    rw [Decided, getElem?_update]
    split
    · change ∃ w, p.invocations[0]?.map _ = some w ∧ _
      rw [hv]
      exact ⟨_, rfl, hr⟩
    · exact ⟨v, hv, hr⟩
  | cancel =>
    rw [Decided, getElem?_update]
    split
    · rw [hv]
      refine ⟨_, rfl, ?_⟩
      cases hs : v.stage <;> simp_all [Stage.cancel, Stage.result?]
    · exact ⟨v, hv, hr⟩
  | @turn _ n w es s hw ht =>
    rw [Decided, getElem?_turn]
    split
    · rename_i hn
      subst hn
      obtain rfl : v = w := Option.some.inj (hv.symm.trans hw)
      rw [hv]
      exact ⟨_, rfl, decided_turn ht hr⟩
    · exact ⟨v, hv, hr⟩

theorem decided_move (hd : Decided r p) (hm : p.Allows m) : Decided r (p.move m) := by
  cases hm with
  | act ha => exact decided_step hd ha step_apply
  | around => exact hd
  | inside => exact hd

theorem decided_play (hd : Decided r p) (hms : p.Course ms) : Decided r (p.play ms) :=
  course_invariant hd hms decided_move

/-- A step before the process runs fails: there is no interpreter, an operation on the files has
failed, or the interpreter does not start. -/
inductive Setback (p : Pool) (n : Nat) (v : Invocation) : Action → String → Prop
  | lookup {e : Interpreter.Error} (hs : v.stage = .waiting) (hc : v.cancelled = false)
      (hf : 0 < p.free) (hi : Interpreter.resolve p.host v.request.language
        (p.config.commandFor v.request.language) = .error e) : Setback p n v (.acquire n) e.text
  | operation {e : Workspace.Error} {fault : Option Errno} (hs : v.stage.provisions = true)
      (ha : v.arrived = some (.error e)) : Setback p n v (.proceed n fault) e.text
  | start {i : Interpreter} {w : Workspace} {e : Child.LaunchError} {fault : Option Errno}
      (hs : v.stage = .writing i w []) (ha : v.arrived = some (.ok ()))
      (hl : p.started v i w fault = .error e) : Setback p n v (.proceed n fault) e.text

/-- The next action of the first invocation fails. -/
def Fails (p : Pool) (v : Invocation) (a : Action) (text : String) : Prop := p.Setback 0 v a text

theorem apply_acquire (hv : p.invocations[n]? = some v) (hs : v.stage = .waiting) :
    p.apply (.acquire n) = p.acquire n v := by
  simp only [apply, onInvocation, hv, hs]

theorem apply_proceed {out : Operation.Outcome} {fault : Option Errno}
    (hv : p.invocations[n]? = some v) (ha : v.arrived = some out) :
    p.apply (.proceed n fault) = p.proceed n v out fault := by
  simp only [apply, onInvocation, hv, ha]

theorem decided_of_turn (hv : p.invocations[0]? = some v) (hs : s.result? = some r) :
    Decided r (p.turn 0 es s) := by
  rw [Decided, getElem?_turn, if_pos rfl, hv]
  exact ⟨_, rfl, hs⟩

/-- A failure decides the result. -/
theorem decided_of_fails (hv : p.invocations[0]? = some v) (hf : p.Fails v a text) :
    Decided (.failed text []) (p.apply a) := by
  cases hf with
  | lookup hs hc hf hi =>
    obtain ⟨es, s, ht, hq⟩ := turn_acquire (n := 0) hs (.inr hf)
    rw [apply_acquire hv hs, hq]
    apply decided_of_turn hv
    cases ht with
    | forgo _ hc' => simp [hc] at hc'
    | unresolved _ _ _ hi' =>
      rw [hi] at hi'
      cases hi'
      rfl
    | root _ _ _ hi' =>
      rw [hi] at hi'
      cases hi'
  | @operation e fault hs ha =>
    have hawaits : v.stage.awaits = true := by
      cases hst : v.stage <;> simp_all [Stage.provisions, Stage.awaits]
    obtain ⟨es, s, ht, hq⟩ := turn_proceed (n := 0) fault hawaits ha
    rw [apply_proceed hv ha, hq]
    apply decided_of_turn hv
    cases ht with
    | unprovided _ ha' =>
      rw [ha] at ha'
      cases ha'
      rfl
    | unwritten _ ha' =>
      rw [ha] at ha'
      cases ha'
      rfl
    | removed hs' _ => simp [hs', Stage.provisions] at hs
    | _ => simp_all
  | @start i w e fault hs ha hl =>
    obtain ⟨es, s, ht, hq⟩ := turn_proceed (n := 0) fault (by simp [hs, Stage.awaits]) ha
    rw [apply_proceed hv ha, hq]
    apply decided_of_turn hv
    cases ht with
    | unstarted hs' _ hl' =>
      rw [hs] at hs'
      cases hs'
      rw [hl] at hl'
      cases hl'
      rfl
    | start hs' _ hl' =>
      rw [hs] at hs'
      cases hs'
      rw [hl] at hl'
      cases hl'
    | unprovided hs' _ => rcases hs' with hs' | hs' <;> simp [hs] at hs'
    | _ => simp_all

end Pool

end HandlerHost.Invoker
