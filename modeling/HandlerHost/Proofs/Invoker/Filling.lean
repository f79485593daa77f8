import HandlerHost.Proofs.Invoker.Course
import HandlerHost.Proofs.Workspace.Contents

/-!
What an invocation that has a pool to itself writes into its workspace. From when its directory has
been made it writes its files one after the other, until all are written and its process is started
or a write has failed, perhaps half way. So what is proved of files that are written in order holds
of the directory of every such invocation.
-/
namespace HandlerHost.Invoker

open HandlerHost.Host (Errno FileSystem)
open Workspace (Complete Holds Home Writing artifacts create under)

variable {h h₀ h₁ h₂ : Host} {root name content part : String} {r : Request} {id : WorkspaceId}
  {s : Stage} {arrived : Option Operation.Outcome} {o o' : Option Operation}
  {home home' : Option Home} {w : Workspace} {files rest : List (String × String)}
  {out : Operation.Outcome} {fault : Option Errno} {e : Workspace.Error}

/-- Some files are written, and then others. -/
theorem writing_append (hw : Writing w h files h₁ (.ok ())) (hr : Writing w h₁ rest h₂ out) :
    Writing w h (files ++ rest) h₂ out := by
  generalize hok : (Except.ok () : Operation.Outcome) = ok at hw
  induction hw with
  | done => exact hr
  | written hw _ ih => exact .written hw (ih hr hok)
  | failed => cases hok
  | torn => cases hok

/-- An invocation that has not begun to remove its workspace is lodged in one way. -/
theorem lodging_unique (hl : Lodging root r id s arrived o home)
    (hl' : Lodging root r id s arrived o' home') (hs : s.isRemoving = false) :
    o = o' ∧ home = home' := by
  have hfiles : ∀ {files files' rest : List (String × String)} {f f' : String × String},
      artifacts r = files ++ f :: rest → artifacts r = files' ++ f' :: rest →
        files = files' ∧ f = f' := by
    intro files files' rest f f' ha ha'
    obtain ⟨hfiles, hf⟩ := List.append_inj' (ha.symm.trans ha') rfl
    exact ⟨hfiles, (List.cons.inj hf).1⟩
  cases hl with
  | writing ha =>
    cases hl' with
    | writing ha' =>
      obtain ⟨rfl, hf⟩ := hfiles ha ha'
      cases hf
      exact ⟨rfl, rfl⟩
  | unwritten ha =>
    cases hl' with
    | unwritten ha' =>
      obtain ⟨rfl, -⟩ := hfiles ha ha'
      exact ⟨rfl, rfl⟩
  | written ha =>
    cases hl' with
    | written ha' =>
      obtain rfl := List.append_cancel_right (ha.symm.trans ha')
      exact ⟨rfl, rfl⟩
  | removing => cases hs
  | removed => cases hs
  | _ =>
    cases hl'
    exact ⟨rfl, rfl⟩

/-- How far an invocation has filled its workspace since its directory was made: the files in its
home have been written, or a write has failed, or it does not need the workspace any more. -/
inductive Filled (h₀ : Host) (root : String) (r : Request) (id : WorkspaceId) :
    Stage → Option Operation.Outcome → Host → Prop
  | filled {s : Stage} {arrived : Option Operation.Outcome} {h : Host} {o : Option Operation}
      {x : Home} (hl : Lodging root r id s arrived o (some x)) (hs : s.isRemoving = false)
      (ha : ∀ e, arrived ≠ some (.error e)) (hw : Writing (under root id) h₀ x.files h (.ok ())) :
      Filled h₀ root r id s arrived h
  | unwritten {i : Interpreter} {w : Workspace} {rest : List (String × String)} {h : Host}
      {e : Workspace.Error} (hw : Writing (under root id) h₀ (artifacts r) h (.error e)) :
      Filled h₀ root r id (.writing i w rest) (some (.error e)) h
  | vacated {s : Stage} {arrived : Option Operation.Outcome} {h : Host}
      (hs : s.isRemoving = true ∨ s.isEnded = true) : Filled h₀ root r id s arrived h

/-- An operation that is carried out while the workspace is filled writes the next file. -/
theorem filled_attempt {o : Operation} (hf : Filled h₀ root r id s arrived h)
    (hl : Lodging root r id s arrived (some o) home) (ho : o.attempt h fault = (h₁, out)) :
    Filled h₀ root r id s (some out) h₁ := by
  obtain rfl := arrived_of_flight hl
  cases hf with
  | vacated hs => exact .vacated hs
  | filled hl' hs _ hw =>
    obtain ⟨-, rfl⟩ := lodging_unique hl hl' hs
    cases hl with
    | removing => cases hs
    | @writing i name content files rest ha =>
      cases out with
      | error e =>
        refine .unwritten ?_
        rw [ha]
        exact writing_append hw (.failed ho)
      | ok =>
        have ha : artifacts r = files ++ [(name, content)] ++ rest := by
          rw [ha, List.append_assoc, List.singleton_append]
        exact .filled (.written ha) rfl nofun (writing_append hw (.written ho .done))

/-- A write that stops half way ends the writing. -/
theorem filled_tear (hf : Filled h₀ root r id s arrived h)
    (hl : Lodging root r id s arrived (some (.write w name content)) home) (hpart : part ≠ content)
    (hp : w.writeFile h name part = (h₁, .ok ()))
    (ho : (Operation.write w name content).attempt h₁ fault = (h₂, .error e)) :
    Filled h₀ root r id s (some (.error e)) h₂ := by
  obtain rfl := arrived_of_flight hl
  cases hf with
  | vacated hs => exact .vacated hs
  | filled hl' hs _ hw =>
    obtain ⟨-, rfl⟩ := lodging_unique hl hl' hs
    cases hl with
    | writing ha =>
      refine .unwritten ?_
      rw [ha]
      exact writing_append hw (.torn hpart hp ho)

theorem filled_cancel (hf : Filled h₀ root r id s arrived h) :
    Filled h₀ root r id s.cancel arrived h := by
  cases hs : s with
  | running =>
    subst hs
    cases hf with
    | filled hl _ ha hw => exact .filled (lodging_cancel hl) rfl ha hw
    | vacated hs => rcases hs with hs | hs <;> cases hs
  | _ =>
    subst hs
    exact hf

namespace Pool

variable {p q : Pool} {v u : Invocation} {a : Action} {es : List Effect} {c : Config} {made : Bool}
  {fs : FileSystem} {k : Nat} {ms : List Move}

/-- A turn writes nothing. After a failed write the workspace is given up. -/
theorem filled_turn (ht : Turn p 0 v a es s) (hroot : p.root = root) (hreq : v.request = r)
    (hid : v.id = id) (hf : Filled h₀ root r id v.stage v.arrived h) :
    Filled h₀ root r id s none h := by
  subst hreq hid
  by_cases hs : s.isRemoving = true ∨ s.isEnded = true
  · exact .vacated hs
  obtain ⟨hremoving, hended⟩ := not_or.mp hs
  generalize hstage : v.stage = stage at hf
  generalize harrived : v.arrived = arrived at hf
  cases hf with
  | filled hl _ _ hw =>
    subst hstage harrived
    obtain ⟨-, o, -, hl'⟩ := lodging_turn ht hroot hl
    exact .filled hl' (Bool.eq_false_iff.mpr hremoving) nofun hw
  | unwritten hw =>
    refine absurd ?_ hremoving
    cases ht <;> simp_all [Stage.isRemoving]
  | vacated hs =>
    subst hstage
    rcases hs with hs | hs
    · exact absurd (isEnded_of_removing ht hs) hended
    · rw [(turn_ready ht).1] at hs
      cases hs

/-- A step that the invocation makes fills its workspace further, or leaves it. -/
theorem filled_step (hp : Alone c h r id made p v) (ha : a.isOwn = true) (hq : Step p a q)
    (hu : q.invocations = [u])
    (hf : Filled h₀ (c.resolvedRoot h) r id v.stage v.arrived p.host) :
    Filled h₀ (c.resolvedRoot h) r id u.stage u.arrived q.host := by
  cases hq with
  | idle =>
    rw [hp.only] at hu
    cases hu
    exact hf
  | accept hr => cases ha
  | abort hv hs => cases ha
  | settle hk hout =>
    obtain ⟨-, ho, -, hs⟩ := hp.onWay hk
    obtain ⟨home, hl, -, -⟩ := hs.lodged
    rw [ho] at hu
    obtain rfl := List.singleton_inj.mp ((update_only hp.only).symm.trans hu)
    exact filled_attempt hf hl hout
  | cancel hv _ =>
    obtain ⟨rfl, rfl⟩ := hp.eq hv
    obtain rfl := List.singleton_inj.mp ((update_only hp.only).symm.trans hu)
    exact filled_cancel hf
  | turn hv ht =>
    obtain ⟨rfl, rfl⟩ := hp.eq hv
    have hq := (alone_turn hp ht).only
    obtain rfl := List.singleton_inj.mp (hq.symm.trans hu)
    rw [host_turn]
    exact filled_turn ht hp.root_eq hp.request hp.ident hf

/-- Moves of an invocation that fills its workspace. The files change by its own steps, and where a
write stops half way and then fails. -/
inductive Fills : Pool → List Move → Prop
  | done {p : Pool} : Fills p []
  | step {p : Pool} {a : Action} {ms : List Move} (ha : a.isOwn = true)
      (hms : (p.apply a).Fills ms) : Fills p (.act a :: ms)
  | torn {p : Pool} {k n : Nat} {w : Workspace} {name content part : String} {fs : FileSystem}
      {e : Errno} {ms : List Move} (hk : p.flights[k]? = some ⟨n, .write w name content⟩)
      (hpart : part ≠ content)
      (hp : w.writeFile p.host name part = ({ p.host with files := fs }, .ok ()))
      (hms : ((p.move (.change fs)).apply (.settle k (some e))).Fills ms) :
      Fills p (.change fs :: .act (.settle k (some e)) :: ms)

theorem filled_play (hp : Alone c h r id made p v) (hms : p.Fills ms)
    (hf : Filled h₀ (c.resolvedRoot h) r id v.stage v.arrived p.host) :
    ∃ made' u, Alone c h r id made' (p.play ms) u ∧
      Filled h₀ (c.resolvedRoot h) r id u.stage u.arrived (p.play ms).host := by
  induction hms generalizing v made with
  | done => exact ⟨made, v, hp, hf⟩
  | step ha _ ih =>
    obtain ⟨made₁, v₁, hp₁, -⟩ := alone_step hp ha step_apply
    exact ih hp₁ (filled_step hp ha step_apply hp₁.only hf)
  | @torn p k n w name content part fs e ms hk hpart hw _ ih =>
    have hp₁ := alone_tear hp hk hw
    obtain ⟨made₂, v₂, hp₂, -⟩ := alone_step hp₁ (a := .settle k (some e)) rfl step_apply
    refine ih hp₂ ?_
    obtain ⟨-, rfl, -, hs⟩ := hp.onWay hk
    obtain ⟨home, hl, -, -⟩ := hs.lodged
    have hu := hp₂.only
    have hk : (p.move (.change fs)).flights[k]? = some ⟨0, .write w name content⟩ := hk
    simp only [apply, settle, hk] at hu ⊢
    obtain rfl := List.singleton_inj.mp ((update_only hp₁.only).symm.trans hu)
    have hfail : (Operation.write w name content).attempt { p.host with files := fs } (some e) =
        ({ p.host with files := fs }, .error ((Operation.write w name content).fail e)) := rfl
    exact filled_tear hf hl hpart hw hfail

/-- An invocation that has just made its directory has filled it with nothing. -/
theorem filled_made (hm : v.HasMade) : Filled h root r id v.stage v.arrived h := by
  obtain ⟨⟨i, hstage⟩, harrived⟩ := hm
  rw [hstage, harrived]
  exact .filled .made rfl nofun .done

/-- An invocation that has a pool to itself writes its files in order from when its directory has
been made. If its process runs, all have been written; if it finds that a write has failed, that
write ended the writing. -/
theorem writing_of_fills (hp : Alone c h r id made p v) (hm : v.HasMade) (hms : p.Fills ms) :
    ∃ u, (p.play ms).invocations = [u] ∧
      (∀ w life s, u.stage = .running w life s →
        Writing (under p.root id) p.host (artifacts r) (p.play ms).host (.ok ())) ∧
      ∀ i w rest e, u.stage = .writing i w rest → u.arrived = some (.error e) →
        Writing (under p.root id) p.host (artifacts r) (p.play ms).host (.error e) := by
  obtain ⟨made', u, hq, hf⟩ := filled_play hp hms (filled_made hm)
  rw [hp.root_eq]
  refine ⟨u, hq.only, fun w life s hs => ?_, fun i w rest e hs ha => ?_⟩
  · generalize u.arrived = arrived at hf
    rw [hs] at hf
    cases hf with
    | filled hl _ _ hw =>
      cases hl
      exact hw
    | vacated hs => rcases hs with hs | hs <;> cases hs
  · rw [hs, ha] at hf
    cases hf with
    | filled _ _ ha _ => exact absurd rfl (ha e)
    | unwritten hw => exact hw
    | vacated hs => rcases hs with hs | hs <;> cases hs

/-- What is in the directory of an invocation that has a pool to itself. When its process runs, all
files of the request and nothing else; when it finds that a write has failed, the files before that
one as a whole and no others. -/
theorem contents_of_fills (hp : Alone c h r id made p v) (hm : v.HasMade) (hs : h₀.files.Sound)
    (hc : create h₀ p.root id = (p.host, .ok w)) (hms : p.Fills ms) :
    ∃ u, (p.play ms).invocations = [u] ∧
      (∀ w' life s, u.stage = .running w' life s → Holds (p.play ms).host w (artifacts r)) ∧
      ∀ i w' rest e, u.stage = .writing i w' rest → u.arrived = some (.error e) →
        ∃ before f after errno, artifacts r = before ++ f :: after ∧
          e = .write (Host.Path.join w.path f.1) errno ∧
          ∀ g ∈ artifacts r, Complete (p.play ms).host w g ↔ g ∈ before := by
  obtain ⟨rfl, -⟩ := Workspace.housed_create hs hc
  obtain ⟨u, hu, hrunning, hfailed⟩ := writing_of_fills hp hm hms
  refine ⟨u, hu, fun w' life s hst => ?_, fun i w' rest e hst ha => ?_⟩
  · exact (Workspace.contents_of_writing hs hc (hrunning w' life s hst)).1 rfl
  · exact (Workspace.contents_of_writing hs hc (hfailed i w' rest e hst ha)).2 e rfl

end Pool

end HandlerHost.Invoker
