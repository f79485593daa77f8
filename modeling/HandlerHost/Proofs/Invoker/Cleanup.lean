import HandlerHost.Proofs.Invoker.Progress
import HandlerHost.Proofs.Invoker.Slots

/-!
Cleaning up. An invocation that is alone returns a result whatever fails on its way, begins one
removal if its directory was made and none otherwise, and leaves the files as they were, but for the
directories of its root.
-/
namespace HandlerHost.Invoker

open HandlerHost.Host (FileSystem)
open Text (Dictionary)
open Workspace (Provides rootPaths)

variable {c : Config} {h : Host} {r : Request} {id : WorkspaceId} {made : Bool} {p q : Pool}
  {v w : Invocation} {n : Nat} {a : Pool.Action} {es : List Effect} {s : Stage} {m : Move}
  {ms pre : List Move}

theorem Stage.isEnded_cancel : s.cancel.isEnded = s.isEnded := by cases s <;> rfl

theorem Stage.workspace?_of_isEnded (hs : s.isEnded = true) : s.workspace? = none := by
  cases s <;> first | rfl | cases hs

namespace Pool

/-- An invocation that will never make anything: it is over, or it waits, and has been cancelled or
will find no interpreter. -/
def Barred (p : Pool) (v : Invocation) : Prop :=
  v.stage.isEnded = true ∨ v.stage = .waiting ∧ (v.cancelled = true ∨
    ∃ e, Interpreter.resolve p.host v.request.language
      (p.config.commandFor v.request.language) = .error e)

theorem awaits_of_barred (hb : Barred p v) : v.stage.awaits = false := by
  rcases hb with hb | ⟨hb, -⟩
  · cases hs : v.stage <;> simp_all [Stage.isEnded, Stage.awaits]
  · rw [hb]
    rfl

theorem barred_turn (hb : Barred p v) (ht : Turn p n v a es s) : s.isEnded = true := by
  have hready := (turn_ready ht).1
  obtain ⟨hs, hb⟩ := hb.resolve_left (by simp [hready])
  cases ht with
  | forgo => rfl
  | unresolved => rfl
  | root _ hc _ hi => simp [hc, hi] at hb
  | unprovided hs' => rcases hs' with hs' | hs' <;> simp [hs] at hs'
  | _ => simp_all

/-- What it does leaves the files alone. -/
theorem barred_step (hp : Alone c h r id made p v) (hb : Barred p v) (ha : a.isOwn = true)
    (hq : Step p a q) :
    q.host = p.host ∧ ∀ w, q.invocations[0]? = some w → Barred q w := by
  have hv := hp.first
  cases hq with
  | idle =>
    refine ⟨rfl, fun w hw => ?_⟩
    obtain ⟨-, rfl⟩ := hp.eq hw
    exact hb
  | accept => cases ha
  | abort => cases ha
  | settle hk =>
    obtain ⟨o, hflights, hst⟩ := hp.standing
    obtain ⟨rfl, -⟩ := idle_of_standing hst (awaits_of_barred hb)
    simp [hflights] at hk
  | cancel hv' =>
    obtain ⟨rfl, rfl⟩ := hp.eq hv'
    refine ⟨rfl, fun w hw => ?_⟩
    rw [update_only hp.only] at hw
    obtain rfl := Option.some.inj hw
    rcases hb with hb | ⟨hb, -⟩
    · exact .inl (Stage.isEnded_cancel.trans hb)
    · exact .inr ⟨congrArg Stage.cancel hb, .inl rfl⟩
  | turn hv' ht =>
    obtain ⟨rfl, rfl⟩ := hp.eq hv'
    refine ⟨host_turn, fun w hw => ?_⟩
    rw [getElem?_turn, if_pos rfl, hv] at hw
    obtain rfl := Option.some.inj hw
    exact .inl (barred_turn hb ht)

theorem barred_move (hp : Alone c h r id made p v) (hb : Barred p v)
    (hm : p.Allows m) : ∃ made' w, Alone c h r id made' (p.move m) w ∧
      (p.move m).host = p.host ∧ Barred (p.move m) w := by
  obtain ⟨made', w, hq, -⟩ := alone_move hp hm
  refine ⟨made', w, hq, ?_⟩
  cases hm with
  | act ha =>
    obtain ⟨hh, hw⟩ := barred_step hp hb ha step_apply
    exact ⟨hh, hw w hq.first⟩
  | around hv hs _ =>
    obtain ⟨-, rfl⟩ := hp.eq hv
    have hidle := awaits_of_barred hb
    simp [hs, Stage.awaits] at hidle
  | inside hv hw _ =>
    obtain ⟨-, rfl⟩ := hp.eq hv
    rcases hb with hb | ⟨hb, -⟩
    · simp [Stage.workspace?_of_isEnded hb] at hw
    · simp [hb, Stage.workspace?] at hw

theorem host_of_barred (hp : Alone c h r id made p v) (hb : Barred p v)
    (hms : p.Course ms) : (p.play ms).host = p.host := by
  let P : Pool → Prop := fun q => ∃ made w, Alone c h r id made q w ∧ q.host = p.host ∧ Barred q w
  have hplay : P (p.play ms) := by
    refine course_invariant ⟨made, v, hp, rfl, hb⟩ hms ?_
    rintro q m ⟨made₁, v₁, hq, hh, hb₁⟩ hm
    obtain ⟨made₂, v₂, hq', hh', hb₂⟩ := barred_move hq hb₁ hm
    exact ⟨made₂, v₂, hq', hh'.trans hh, hb₂⟩
  obtain ⟨made', w, -, hh, -⟩ := hplay
  exact hh

/-- An invocation that has just been accepted. -/
theorem alone_submit {payload : Payload} (hsound : h.files.Sound) (hp : ofConfig? c h = some p)
    (hq : p.submit payload id = .ok q) :
    ∃ r, Alone c h r id false q (.start r id) ∧ q.host = h ∧
      q.free + q.held = c.maxConcurrent.toNat := by
  obtain rfl := eq_of_ofConfig? hp
  unfold submit at hq
  cases hr : Request.ofPayload payload with
  | error e =>
    rw [hr] at hq
    cases hq
  | ok r =>
    rw [hr] at hq
    cases hq
    have hstanding : Standing h (c.resolvedRoot h) r id false .waiting none none h.files 0 :=
      standing_start hsound
    exact ⟨r, ⟨rfl, ⟨h.files, rfl⟩, rfl, rfl, rfl, none, rfl, hstanding⟩, rfl, rfl⟩

/-- A machine with its files as they were, but for the directories of a root. -/
def Restored (h : Host) (root : String) (h' : Host) : Prop :=
  ∃ fs, h' = { h with files := fs } ∧ Provides h.cwd (rootPaths root) h.files fs

theorem play_append {ns : List Move} : p.play (ms ++ ns) = (p.play ms).play ns := List.foldl_append

theorem held_of_waiting (hv : p.invocations = [v]) (hs : v.stage = .waiting) : p.held = 0 := by
  simp [held, hv, hs, Stage.holdsSlot]

theorem balance_play (hms : p.Course ms) :
    (p.play ms).free + (p.play ms).held = p.free + p.held := by
  refine course_invariant (P := fun q => q.free + q.held = p.free + p.held) rfl hms ?_
  intro q m hq hm
  cases hm with
  | act => exact (balance_step step_apply).trans hq
  | around => exact hq
  | inside => exact hq

/-- Nothing has been made for an invocation that waits. -/
theorem host_of_waiting (hp : Alone c h r id made p v) (hs : v.stage = .waiting) : p.host = h := by
  obtain ⟨fs, hfs⟩ := hp.host
  obtain ⟨o, -, hst⟩ := hp.standing
  rw [hfs] at hst
  have hfiles : fs = h.files := hst.untouched hs
  rw [hfs, hfiles]

/-- What an invocation that is over leaves behind. -/
theorem restored_of_ended {ending : Ending} (hp : Alone c h r id made p v)
    (hs : v.stage = .ended ending) : (∃ result, ending = .result result) ∧
      (p.trace 0).count .removal = made.toNat ∧ Restored h (c.resolvedRoot h) p.host := by
  obtain ⟨fs, hfs⟩ := hp.host
  obtain ⟨o, -, hst⟩ := hp.standing
  rw [hs, hfs] at hst
  obtain ⟨home, hl, hf, -⟩ := hst.lodged
  have hnone : home = none := by
    generalize v.arrived = arrived at hl
    cases hl
    rfl
  subst hnone
  refine ⟨?_, hst.removals, fs, hfs, hf⟩
  cases ending with
  | result r => exact ⟨r, rfl⟩
  | aborted => exact absurd rfl hst.stays

/-- A failure on the way is what an invocation reports at its end. -/
theorem reports_of_fails {result : Result} {text : String} (hms : p.Course ms)
    (hpre : pre ++ [.act a] <+: ms) (hw : (p.play pre).invocations[0]? = some w)
    (hf : (p.play pre).Fails w a text) (hv : (p.play ms).invocations[0]? = some v)
    (hs : v.stage = .ended (.result result)) : Reports result text := by
  obtain ⟨rest, rfl⟩ := hpre
  have hrest := (course_append hms).2
  have hdecided : Decided (.failed text []) (p.play (pre ++ [.act a])) := by
    rw [play_append]
    exact decided_of_fails hw hf
  obtain ⟨w', hw', hr⟩ := decided_play hdecided hrest
  rw [← play_append, hv] at hw'
  obtain rfl := Option.some.inj hw'
  rw [hs] at hr
  obtain rfl : result = .failed text [] := Option.some.inj hr
  exact reports_failed text

/-- However an invocation goes that has a pool to itself and whose caller stays: once what is left
to do is done it has a result; if there is no interpreter for it, or it is cancelled while it waits,
the machine stays as it is; and at its end it has begun one removal if its directory was made and
none otherwise, the files are as they were but for the directories of the root, and a failure on the
way is what it reports. -/
theorem cleanup_everywhere {payload : Payload} (hsound : h.files.Sound)
    (hp : ofConfig? c h = some p) (hq : p.submit payload id = .ok q) (hms : q.Course ms) :
    let o := q.play ms
    ∃ v, o.invocations = [v] ∧
      (0 < c.maxConcurrent.toNat → ∀ faults e n last, maxOperations ≤ faults.length →
        v.stage.backlog < n → ∃ w result, (o.run (remainder faults e n last)).invocations = [w] ∧
          w.stage = .ended (.result result)) ∧
      ((∃ e, Interpreter.resolve h v.request.language (c.commandFor v.request.language) = .error e) ∨
        (∃ pre w, pre <+: ms ∧ (q.play pre).invocations = [w] ∧ w.stage = .waiting ∧
          w.cancelled = true) → o.host = h) ∧
      ∀ ending, v.stage = .ended ending → ∃ result, ending = .result result ∧
        (q.HasMade ms → (o.trace 0).count .removal = 1) ∧
        (¬ q.HasMade ms → (o.trace 0).count .removal = 0) ∧
        Restored h (c.resolvedRoot h) o.host ∧
        ∀ pre w a text, pre ++ [.act a] <+: ms → (q.play pre).invocations = [w] →
          (q.play pre).Fails w a text → Reports result text := by
  intro o
  obtain ⟨r, hstart, hhost, hslots⟩ := alone_submit hsound hp hq
  obtain ⟨made, v, hv, hmade⟩ := alone_play hstart hms
  refine ⟨v, hv.only, ?_, ?_, ?_⟩
  · intro hpos faults e n last hlen hn
    have hfree : v.stage = .waiting → v.cancelled = true ∨ 0 < o.free := by
      intro hs
      have hbalance := (balance_play hms).trans hslots
      rw [held_of_waiting hv.only hs, Nat.add_zero] at hbalance
      exact .inr (hbalance.symm ▸ hpos)
    obtain ⟨made', w, result, hw, hended⟩ := alone_remainder hv hfree hlen e hn last
    exact ⟨w, result, hw.only, hended⟩
  · rintro (⟨e, he⟩ | ⟨pre, w, ⟨rest, rfl⟩, hw, hs, hc⟩)
    · rw [hv.request] at he
      have hbarred : Barred q (.start r id) :=
        .inr ⟨rfl, .inr ⟨e, by rw [hhost, hstart.config]; exact he⟩⟩
      exact (host_of_barred hstart hbarred hms).trans hhost
    · -- Nothing is made before the slot, and from there on the invocation is barred.
      obtain ⟨hpre, hrest⟩ := course_append hms
      obtain ⟨made', w', hw', -⟩ := alone_play hstart hpre
      obtain rfl : w' = w := List.cons.inj (hw'.only.symm.trans hw) |>.1
      have hsame := host_of_barred hw' (.inr ⟨hs, .inl hc⟩) hrest
      rw [← play_append] at hsame
      exact hsame.trans (host_of_waiting hw' hs)
  · intro ending hs
    obtain ⟨⟨result, rfl⟩, hcount, hrestored⟩ := restored_of_ended hv hs
    have hmade : made = true ↔ q.HasMade ms := by simpa using hmade
    refine ⟨result, rfl, ?_, ?_, hrestored, ?_⟩
    · intro hm
      rw [hcount, hmade.mpr hm]
      rfl
    · intro hm
      rw [hcount, Bool.eq_false_iff.mpr (mt hmade.mp hm)]
      rfl
    · intro pre w a text hpre hw hf
      have hw : (q.play pre).invocations[0]? = some w := by rw [hw]; rfl
      exact reports_of_fails hms hpre hw hf hv.first hs

/-- The root and the directory are made, and the first file cannot be written. -/
theorem cleanup_everywhere_unwritten :
    let c : Config := { Config.empty with
      workspaceRoot := some "/w", interpreters := Dictionary.empty.insert "python" ["/i"] }
    let h : Host := ⟨FileSystem.empty.set ["i"] (.file "" true), [], .empty⟩
    let payload : Payload := ⟨"python", "x", .null, none, none⟩
    let id : WorkspaceId := ⟨0⟩
    let q := run ⟨c, h, 16, [], [], []⟩ [.submit payload id]
    let made : List Move := [.act (.acquire 0), .act (.settle 0 none), .act (.proceed 0 none),
      .act (.settle 0 none)]
    let refused := made ++ [.act (.proceed 0 none), .act (.settle 0 (some .denied))]
    let ms := refused ++ [.act (.proceed 0 none), .act (.settle 0 none), .act (.proceed 0 none)]
    let source := Host.Path.join (Workspace.under "/w" id).path Language.python.sourceFile
    ((q.play ms).trace 0).count .removal = 1 ∧ Restored h "/w" (q.play ms).host ∧
      ∃ v result, (q.play ms).invocations = [v] ∧ v.stage = .ended (.result result) ∧
        Reports result (Workspace.Error.write source .denied).text := by
  intro c h payload id q made refused ms source
  let r : Request := ⟨.python, "x", .object [], "handler", none⟩
  let i : Interpreter := ⟨"/i", []⟩
  have hlanguage : Language.ofName? "python" = some .python := by cbv
  have hrequest : Request.ofPayload payload = .ok r := by
    have hname : isIdentifier defaultHandler = true := by decide
    simp only [Request.ofPayload, payload, hlanguage, Option.getD_none, hname]
    rfl
  have hinterpreter : Interpreter.resolve h .python (c.commandFor .python) = .ok i := by
    decide +kernel
  have hresolved : ∀ h', c.resolvedRoot h' = "/w" := fun _ => rfl
  have hroot : (Operation.makeRoot "/w").perform h =
      ({ h with files := h.files.set ["w"] .directory }, .ok ()) := by
    decide +kernel
  have hdirectory : ((Operation.makeDirectory "/w" id).perform
      { h with files := h.files.set ["w"] .directory }).2 = .ok () := by
    decide +kernel
  have hsubmit : (⟨c, h, 16, [], [], []⟩ : Pool).submit payload id =
      .ok ⟨c, h, 16, [.start r id], [], []⟩ := by
    simp [submit, hrequest, Except.map]
  have hq : q = ⟨c, h, 16, [.start r id], [], []⟩ := by
    simp only [q, run, List.foldl_cons, List.foldl_nil, apply, hsubmit]
  obtain ⟨hmade, hrefused, result, hended⟩ :
      (q.play made).invocations = [⟨r, id, false, .making i, some (.ok ())⟩] ∧
      (q.play refused).invocations = [⟨r, id, false,
        .writing i (.under "/w" id) (Workspace.artifacts r).tail,
        some (.error (.write source .denied))⟩] ∧
      ∃ result, (q.play ms).invocations = [⟨r, id, false, .ended (.result result), none⟩] := by
    simp [hq, ms, refused, made, r, play, move, apply, onInvocation, acquire, resolve,
      Invocation.start, note, hinterpreter, enterWith, enter, update, settle, Operation.attempt,
      proceed, Pool.root, hresolved, hroot, hdirectory, fill, Workspace.artifacts, Operation.fail,
      removeWith, leave, source]
  have hsound : h.files.Sound :=
    FileSystem.sound_set (d := []) FileSystem.sound_empty rfl (by decide)
  have hms : q.Course ms := course_of_acts (by simp [ms, refused, made, Action.isOwn])
  have hpool : ofConfig? c h = some ⟨c, h, 16, [], [], []⟩ := rfl
  obtain ⟨v, hv, -, -, hover⟩ := cleanup_everywhere hsound hpool (hq ▸ hsubmit) hms
  obtain rfl : _ = v := List.cons.inj (hended.symm.trans hv) |>.1
  obtain ⟨_, hsame, hcount, -, hrestored, hreports⟩ := hover _ rfl
  obtain rfl := Ending.result.inj hsame
  have hwas : q.HasMade ms :=
    ⟨made, _, by simp [ms, refused], by rw [hmade]; rfl, ⟨i, rfl⟩, rfl⟩
  refine ⟨hcount hwas, hrestored, _, _, hended, rfl, ?_⟩
  refine hreports refused _ (.proceed 0 none) _ ?_ hrefused ?_
  · simp [ms]
  · exact .operation rfl rfl

end Pool

end HandlerHost.Invoker
