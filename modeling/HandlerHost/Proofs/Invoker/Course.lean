import HandlerHost.Proofs.Invoker.Lodging

/-!
An invocation that has a pool to itself. Any of its operations may fail, and files change as they
can on its way: a root may be made in part, a write may stop half way, and a process does what it
likes in its workspace. However it goes, the files are those of the start with a root provided,
and with the workspace's directory while that is in use.
-/
namespace HandlerHost.Invoker

open HandlerHost.Host (Errno FileSystem)
open Child (Life Supervisor)
open Workspace (Deed Home Homes Inside Provides Stands createRoot rootPaths)

/-- What comes next: a step of the pool, or a change of the files. -/
inductive Move
  | act (a : Pool.Action)
  | change (fs : FileSystem)

/-- The caller makes no other call and does not go away. -/
def Pool.Action.isOwn : Pool.Action → Bool
  | submit _ _ => false
  | abort _ => false
  | _ => true

namespace Pool

def move (p : Pool) : Move → Pool
  | .act a => p.apply a
  | .change fs => { p with host := { p.host with files := fs } }

/-- The pool after some moves. -/
def play (p : Pool) (ms : List Move) : Pool := ms.foldl move p

/-- What can come next for the first invocation of a pool. -/
inductive Allows (p : Pool) : Move → Prop
  | act {a : Action} (ha : a.isOwn = true) : Allows p (.act a)
  /-- Directories around the root appear while it is made. -/
  | around {v : Invocation} {i : Interpreter} {fs : FileSystem} (hv : p.invocations[0]? = some v)
      (hs : v.stage = .rooting i)
      (hf : Provides p.host.cwd (rootPaths p.root) p.host.files fs) : Allows p (.change fs)
  /-- Anything happens in the workspace while it is in use. -/
  | inside {v : Invocation} {w : Workspace} {fs : FileSystem} (hv : p.invocations[0]? = some v)
      (hw : v.stage.workspace? = some w) (hf : Inside p.host.cwd w p.host.files fs) :
      Allows p (.change fs)

/-- Moves that can come one after the other. -/
def Course (p : Pool) : List Move → Prop
  | [] => True
  | m :: ms => p.Allows m ∧ (p.move m).Course ms

end Pool

section

variable (h : Host) (root : String) (request : Request) (id : WorkspaceId)

/-- The files of a machine with a root provided. -/
def Provided (fs : FileSystem) : Prop := Provides h.cwd (rootPaths root) h.files fs

/-- The files of a machine with a root provided and a workspace in use. -/
def Occupied (fs : FileSystem) : Prop :=
  ∃ base d name, Provided h root base ∧ Stands h.cwd (.under root id) base d name fs

/-- The files where an invocation has this home, if it has one. -/
def Held (home : Option Home) (fs : FileSystem) : Prop :=
  match home with
  | none => Provided h root fs
  | some _ => Occupied h root id fs

end

namespace Stage

def isRemoving : Stage → Bool
  | removing _ _ => true
  | _ => false

/-- How many removals have begun, if the directory has been made or not. -/
def removals (made : Bool) (s : Stage) : Nat :=
  if s.isEnded then made.toNat else s.isRemoving.toNat

end Stage

/-- How an invocation stands that nobody else disturbs: it is lodged, and the files are those that
its home asks for. This tells whether its directory has been made and how many removals it has
begun. -/
structure Standing (h : Host) (root : String) (request : Request) (id : WorkspaceId) (made : Bool)
    (s : Stage) (arrived : Option Operation.Outcome) (flight : Option Operation) (fs : FileSystem)
    (k : Nat) : Prop where
  lodged : ∃ home, Lodging root request id s arrived flight home ∧ Held h root id home fs ∧
    (s.isEnded = false → made = (home.isSome || s.isRemoving))
  untouched : s = .waiting → fs = h.files
  watched : ∀ w life sup, s = .running w life sup → sup.termination? = none
  stays : s ≠ .ended .aborted
  removals : k = s.removals made

variable {h h' : Host} {root : String} {request : Request} {id : WorkspaceId} {made : Bool}
  {s : Stage} {arrived : Option Operation.Outcome} {out : Operation.Outcome} {o : Operation}
  {flight : Option Operation} {home : Option Home} {homes homes' : Homes} {fs fs' : FileSystem}
  {n k : Nat} {fault : Option Errno}

theorem standing_start (hs : h.files.Sound) :
    Standing h root request id false .waiting none none h.files 0 where
  lodged := ⟨none, .waiting, Provides.refl hs, fun _ => rfl⟩
  untouched _ := rfl
  watched w life sup hs := by cases hs
  stays hs := by cases hs
  removals := rfl

/-- What a deed does to the files is what it does to the home. -/
theorem held_deed (hd : Deed root id n homes { h with files := fs } homes' h')
    (hf : Held h root id (homes n) fs) :
    ∃ fs', h' = { h with files := fs' } ∧ Held h root id (homes' n) fs' := by
  cases hd with
  | make hn hc =>
    rw [hn] at hf
    have hp : Provided h root fs := hf
    rcases Workspace.createDirectory_cases (h := { h with files := fs }) root id hp.sound with
      ⟨e, he⟩ | ⟨fs', d, name, hm, hs⟩
    · rw [he] at hc
      cases hc
    · rw [hm] at hc
      cases hc
      refine ⟨fs', rfl, ?_⟩
      rw [Function.update_self]
      exact ⟨fs, d, name, hp, hs⟩
  | @write file content files _ hx hplain _ hw =>
    rw [hx] at hf
    obtain ⟨base, d, name, hp, hs⟩ := hf
    obtain ⟨fs', hfs, hs'⟩ :=
      Workspace.stands_writeFile (h := { h with files := fs }) content hplain hs
    rw [hw] at hfs
    refine ⟨fs', hfs, ?_⟩
    rw [Function.update_self]
    exact ⟨base, d, name, hp, hs'⟩
  | remove hx =>
    rw [hx] at hf
    obtain ⟨base, d, name, hp, hs⟩ := hf
    obtain ⟨fs', hfs, he⟩ := Workspace.lookup_remove (h := { h with files := fs }) hs
    refine ⟨fs', hfs, ?_⟩
    rw [Function.update_self]
    exact hp.trans (.of_lookup hp.sound he)

/-- A root is made where there is no home. -/
theorem held_createRoot (hl : Lodging root request id s arrived (some (.makeRoot root)) home)
    (hf : Held h root id home fs) :
    ∃ fs', (createRoot { h with files := fs } root).1 = { h with files := fs' } ∧
      Held h root id home fs' := by
  cases hl
  have hp : Provided h root fs := hf
  obtain ⟨fs', hfs, hp'⟩ :=
    Workspace.provides_createRoot (h := { h with files := fs }) root hp.sound
  exact ⟨fs', hfs, Provides.trans hp hp'⟩

theorem awaits_of_flight (hl : Lodging root request id s arrived (some o) home) :
    s.isEnded = false ∧ s.awaits = true := by
  cases hl <;> exact ⟨rfl, rfl⟩

/-- An operation that is carried out. -/
theorem standing_attempt (hs : Standing h root request id made s arrived (some o) fs k)
    (ho : o.attempt { h with files := fs } fault = (h', out)) :
    ∃ fs' made', h' = { h with files := fs' } ∧
      Standing h root request id made' s (some out) none fs' k ∧ (made = true → made' = true) ∧
      (made' = true → made = true ∨ (∃ i, s = .making i) ∧ out = .ok ()) := by
  obtain ⟨home, hl, hf, hmade⟩ := hs.lodged
  obtain ⟨hended, hawaits⟩ := awaits_of_flight hl
  obtain ⟨homes', hl', hchange⟩ := lodging_attempt (fun _ => home) 0 hl ho
  obtain ⟨fs', rfl, hf'⟩ : ∃ fs', h' = { h with files := fs' } ∧ Held h root id (homes' 0) fs' := by
    rcases hchange with ⟨rfl, rfl⟩ | ⟨rfl, rfl, rfl⟩ | hd
    · exact ⟨fs, rfl, hf⟩
    · exact held_createRoot hl hf
    · exact held_deed hd hf
  generalize homes' 0 = home' at hl' hf'
  have hk : k = s.removals (home'.isSome || s.isRemoving) := by
    rw [hs.removals, Stage.removals, Stage.removals, hended]
    rfl
  rw [hmade hended]
  refine ⟨fs', _, rfl, ⟨⟨home', hl', hf', fun _ => rfl⟩, ?_, hs.watched, hs.stays, hk⟩, ?_, ?_⟩
  · intro hw
    rw [hw] at hawaits
    cases hawaits
  · intro hm
    cases hl <;> cases hl' <;> simp_all [Stage.isRemoving]
  · intro hm
    cases hl <;> cases hl' <;> simp_all [Stage.isRemoving]

theorem standing_cancel (hs : Standing h root request id made s arrived flight fs k) :
    Standing h root request id made s.cancel arrived flight fs k := by
  cases s with
  | running w life sup =>
    obtain ⟨⟨home, hl, hf, hmade⟩, -, hwatched, -, hk⟩ := hs
    refine ⟨⟨home, lodging_cancel hl, hf, hmade⟩, nofun, fun w' life' sup' hs => ?_, nofun, hk⟩
    cases hs
    exact hwatched w life sup rfl
  | _ => exact hs

/-- The files change and the stage does not. -/
theorem standing_files (hs : Standing h root request id made s arrived flight fs k)
    (hw : s ≠ .waiting) (hf : ∀ home, Lodging root request id s arrived flight home →
      Held h root id home fs → Held h root id home fs') :
    Standing h root request id made s arrived flight fs' k := by
  obtain ⟨⟨home, hl, hh, hmade⟩, -, hwatched, hstays, hk⟩ := hs
  exact ⟨⟨home, hl, hf home hl hh, hmade⟩, fun hs => absurd hs hw, hwatched, hstays, hk⟩

theorem standing_change (hs : Standing h root request id made s arrived flight fs k)
    (hf : (∃ i, s = .rooting i) ∧ Provides h.cwd (rootPaths root) fs fs' ∨
      ∃ w, s.workspace? = some w ∧ Inside h.cwd w fs fs') :
    Standing h root request id made s arrived flight fs' k := by
  rcases hf with ⟨⟨i, rfl⟩, hp⟩ | ⟨w, hw, hi⟩
  · refine standing_files hs nofun fun home hl hh => ?_
    have hroot : home = none := by cases hl <;> rfl
    subst hroot
    exact Provides.trans hh hp
  · refine standing_files hs (by rintro rfl; cases hw) fun home hl hh => ?_
    obtain ⟨rfl, x, rfl⟩ : w = .under root id ∧ ∃ x, home = some x := by
      cases hl <;> simp_all [Stage.workspace?]
    obtain ⟨base, d, name, hp, hd⟩ := hh
    exact ⟨base, d, name, hp, hd.inside hi⟩

/-- A write that stops half way leaves a part in the workspace. -/
theorem standing_tear {w : Workspace} {name content part : String}
    (hs : Standing h root request id made s arrived (some (.write w name content)) fs k)
    (hp : w.writeFile { h with files := fs } name part = (h', .ok ())) :
    ∃ fs', h' = { h with files := fs' } ∧
      Standing h root request id made s arrived (some (.write w name content)) fs' k := by
  obtain ⟨home, hl, -, -⟩ := hs.lodged
  have ht : (Operation.write w name part).attempt { h with files := fs } none = (h', .ok ()) := hp
  obtain ⟨fs', rfl⟩ := Operation.host_attempt ht
  have hw : s ≠ .waiting := by
    rintro rfl
    cases hl
  refine ⟨fs', rfl, standing_files hs hw fun home hl hh => ?_⟩
  cases hl with
  | writing ha =>
    have hplain : FileSystem.IsPlain name :=
      Workspace.isPlain_artifacts (name, content) (by rw [ha]; simp)
    obtain ⟨base, d, dir, hprovided, hstands⟩ := hh
    obtain ⟨fs₁, hfs, hstands'⟩ :=
      Workspace.stands_writeFile (h := { h with files := fs }) part hplain hstands
    rw [hp] at hfs
    obtain rfl : fs' = fs₁ := congrArg Host.files hfs
    exact ⟨base, d, dir, hprovided, hstands'⟩

theorem count_killing {s s' : Supervisor} : (killing s s').count .removal = 0 := by
  unfold killing
  split <;> rfl

theorem termination_supervisor (v : Invocation) : v.supervisor.termination? = none := by
  unfold Invocation.supervisor
  split <;> rfl

/-- The directory of the invocation has just been made. -/
def Invocation.HasMade (v : Invocation) : Prop :=
  (∃ i, v.stage = .making i) ∧ v.arrived = some (.ok ())

namespace Pool

variable {p q : Pool} {v : Invocation} {a : Action} {es : List Effect} {n : Nat}

theorem watched_of_turn {w : Workspace} {life : Life} {sup : Supervisor} (ht : Turn p n v a es s)
    (hs : s = .running w life sup) : sup.termination? = none := by
  cases ht with
  | start =>
    cases hs
    exact termination_supervisor v
  | watch _ ht =>
    cases hs
    exact ht
  | _ => cases hs

theorem count_removal (ht : Turn p n v a es s) : es.count .removal = s.isRemoving.toNat := by
  cases ht with
  | watch => exact count_killing
  | finish =>
    rw [List.count_append, count_killing]
    rfl
  | _ => rfl

theorem isEnded_of_removing (ht : Turn p n v a es s) (hv : v.stage.isRemoving = true) :
    s.isEnded = true := by
  cases ht with
  | removed => rfl
  | unprovided hs => rcases hs with hs | hs <;> simp [hs, Stage.isRemoving] at hv
  | _ => simp_all [Stage.isRemoving]

/-- A turn begins an operation or none, and a removal when the workspace is given up. -/
theorem standing_turn (ht : Turn p n v a es s) (hroot : p.root = root) (hreq : v.request = request)
    (hid : v.id = id) (hs : Standing h root request id made v.stage v.arrived flight fs k) :
    flight = none ∧ ∃ o : Option Operation, es.filterMap Effect.operation? = o.toList ∧
      Standing h root request id made s none o fs (k + es.count .removal) := by
  subst hreq hid
  obtain ⟨⟨home, hl, hf, hmade⟩, -, -, -, hk⟩ := hs
  obtain ⟨hflight, o, ho, hl'⟩ := lodging_turn ht hroot hl
  obtain ⟨hwaiting, hstays⟩ := admitted_of_turn ht
  have hended : v.stage.isEnded = false := (turn_ready ht).1
  have hmade := hmade hended
  refine ⟨hflight, o, ho, ⟨home, hl', hf, fun hs => ?_⟩, fun hs => absurd hs hwaiting,
    fun w life sup => watched_of_turn ht, hstays, ?_⟩
  · have hv : v.stage.isRemoving = false := by
      rw [Bool.eq_false_iff]
      intro hv
      rw [isEnded_of_removing ht hv] at hs
      cases hs
    rw [hmade, hv]
    cases hl' <;> rfl
  · rw [hk, count_removal ht, Stage.removals, Stage.removals, hended]
    cases hv : v.stage.isRemoving with
    | true =>
      rw [hv, Bool.or_true] at hmade
      have hs := isEnded_of_removing ht hv
      cases s with
      | ended e => simp [hmade, Stage.isEnded, Stage.isRemoving]
      | _ => cases hs
    | false =>
      rw [hv, Bool.or_false] at hmade
      cases hl' <;> simp [hmade, Stage.isEnded, Stage.isRemoving]

/-- A pool with one invocation. -/
structure Alone (c : Config) (h : Host) (r : Request) (id : WorkspaceId) (made : Bool) (p : Pool)
    (v : Invocation) : Prop where
  config : p.config = c
  host : ∃ fs, p.host = { h with files := fs }
  only : p.invocations = [v]
  request : v.request = r
  ident : v.id = id
  standing : ∃ o : Option Operation, p.flights = o.toList.map (Flight.mk 0) ∧
    Standing h (c.resolvedRoot h) r id made v.stage v.arrived o p.host.files
      ((p.trace 0).count .removal)

variable {c : Config} {r : Request} {made made' : Bool} {w : Invocation} {m : Move} {ms : List Move}

theorem Alone.root_eq (hp : Alone c h r id made p v) : p.root = c.resolvedRoot h := by
  obtain ⟨fs, hfs⟩ := hp.host
  rw [Pool.root, hp.config, hfs]
  rfl

theorem Alone.first (hp : Alone c h r id made p v) : p.invocations[0]? = some v := by
  rw [hp.only]
  rfl

/-- The first is the only one. -/
theorem Alone.eq (hp : Alone c h r id made p v) (hw : p.invocations[n]? = some w) :
    n = 0 ∧ w = v := by
  rw [hp.only] at hw
  cases n with
  | zero => exact ⟨rfl, (Option.some.inj hw).symm⟩
  | succ n => cases hw

/-- The only operation on its way is that of the first. -/
theorem Alone.onWay {f : Flight} (hp : Alone c h r id made p v) (hk : p.flights[k]? = some f) :
    k = 0 ∧ f.owner = 0 ∧ p.flights = [f] ∧
      Standing h (c.resolvedRoot h) r id made v.stage v.arrived (some f.operation) p.host.files
        ((p.trace 0).count .removal) := by
  obtain ⟨o, hflights, hs⟩ := hp.standing
  rw [hflights] at hk ⊢
  cases o with
  | none => cases hk
  | some o =>
    cases k with
    | zero =>
      obtain rfl : ⟨0, o⟩ = f := Option.some.inj hk
      exact ⟨rfl, rfl, rfl, hs⟩
    | succ k => cases hk

theorem Alone.made_of_hasMade (hp : Alone c h r id made p v) (hm : v.HasMade) : made = true := by
  obtain ⟨o, -, hs⟩ := hp.standing
  obtain ⟨⟨i, hst⟩, ha⟩ := hm
  obtain ⟨home, hl, -, hmade⟩ := hs.lodged
  rw [hst, ha] at hl
  rw [hmade (by rw [hst]; rfl)]
  cases hl
  rfl

theorem update_only {f : Invocation → Invocation} (hp : p.invocations = [v]) :
    (p.update 0 f).invocations = [f v] := by
  rw [update, hp]
  rfl

theorem alone_settle {f : Flight} (hp : Alone c h r id made p v) (hk : p.flights[k]? = some f)
    (hout : f.operation.attempt p.host fault = (h', out)) :
    ∃ made', Alone c h r id made' ({ p with host := h', flights := p.flights.eraseIdx k }.update
        f.owner fun v => { v with arrived := some out }) { v with arrived := some out } ∧
      (made = true → made' = true) ∧
      (made' = true → made = true ∨ { v with arrived := some out }.HasMade) := by
  obtain ⟨rfl, ho, hflights, hs⟩ := hp.onWay hk
  obtain ⟨fs, hfs⟩ := hp.host
  rw [hfs] at hs hout
  obtain ⟨fs', made', rfl, hs', hmono, hmade⟩ := standing_attempt hs hout
  rw [ho, hflights]
  refine ⟨made', ⟨hp.config, ⟨fs', rfl⟩, update_only hp.only, hp.request, hp.ident, none, rfl, hs'⟩,
    hmono, fun hm => (hmade hm).imp_right ?_⟩
  rintro ⟨hst, rfl⟩
  exact ⟨hst, rfl⟩

theorem alone_turn (hp : Alone c h r id made p v)
    (ht : Turn p 0 v a es s) :
    Alone c h r id made (p.turn 0 es s) { v with stage := s, arrived := none } := by
  obtain ⟨o, hflights, hs⟩ := hp.standing
  obtain ⟨rfl, o', ho', hs'⟩ := standing_turn ht hp.root_eq hp.request hp.ident hs
  refine ⟨?_, ?_, ?_, hp.request, hp.ident, o', ?_, ?_⟩
  · exact config_turn.trans hp.config
  · rw [host_turn]
    exact hp.host
  · rw [turn, enter]
    exact update_only (foldl_emit_invocations.trans hp.only)
  · rw [flights_turn, hflights, ho']
    rfl
  · rw [host_turn, trace_turn, if_pos rfl, List.count_append]
    exact hs'

theorem alone_cancel (hp : Alone c h r id made p v) :
    Alone c h r id made (p.update 0 fun v => { v with cancelled := true, stage := v.stage.cancel })
      { v with cancelled := true, stage := v.stage.cancel } := by
  obtain ⟨o, hflights, hs⟩ := hp.standing
  exact ⟨hp.config, hp.host, update_only hp.only, hp.request, hp.ident, o, hflights,
    standing_cancel hs⟩

/-- Every step of its own leaves it alone, and finds that its directory is made when it is. -/
theorem alone_step (hp : Alone c h r id made p v) (ha : a.isOwn = true)
    (hq : Step p a q) : ∃ made' w, Alone c h r id made' q w ∧ (made = true → made' = true) ∧
      (made' = true → made = true ∨ w.HasMade) := by
  cases hq with
  | idle => exact ⟨made, v, hp, fun h => h, .inl⟩
  | accept hr => cases ha
  | abort hv hs => cases ha
  | settle hk hout =>
    obtain ⟨made', hq, hmono, hmade⟩ := alone_settle hp hk hout
    exact ⟨made', _, hq, hmono, hmade⟩
  | cancel hv _ =>
    obtain ⟨rfl, rfl⟩ := hp.eq hv
    exact ⟨made, _, alone_cancel hp, fun h => h, .inl⟩
  | turn hv ht =>
    obtain ⟨rfl, rfl⟩ := hp.eq hv
    exact ⟨made, _, alone_turn hp ht, fun h => h, .inl⟩

theorem alone_change (hp : Alone c h r id made p v)
    (hf : (∃ i, v.stage = .rooting i) ∧ Provides p.host.cwd (rootPaths p.root) p.host.files fs ∨
      ∃ w, v.stage.workspace? = some w ∧ Inside p.host.cwd w p.host.files fs) :
    Alone c h r id made (p.move (.change fs)) v := by
  obtain ⟨o, hflights, hs⟩ := hp.standing
  obtain ⟨fs', hfs⟩ := hp.host
  have hcwd : p.host.cwd = h.cwd := by rw [hfs]
  rw [hp.root_eq, hcwd] at hf
  refine ⟨hp.config, ⟨fs, ?_⟩, hp.only, hp.request, hp.ident, o, hflights, standing_change hs hf⟩
  rw [move, hfs]

/-- A write that stops half way leaves it alone. -/
theorem alone_tear {ws : Workspace} {o : Nat} {name content part : String}
    (hp : Alone c h r id made p v) (hk : p.flights[k]? = some ⟨o, .write ws name content⟩)
    (hw : ws.writeFile p.host name part = ({ p.host with files := fs }, .ok ())) :
    Alone c h r id made (p.move (.change fs)) v := by
  obtain ⟨-, ho, hflights, hs⟩ := hp.onWay hk
  obtain ⟨fs', hfs⟩ := hp.host
  rw [hfs] at hs hw
  obtain ⟨fs₁, he, hs'⟩ := standing_tear hs hw
  obtain rfl : fs = fs₁ := congrArg Host.files he
  obtain rfl : o = 0 := ho
  refine ⟨hp.config, ⟨fs, ?_⟩, hp.only, hp.request, hp.ident, some (.write ws name content),
    hflights, hs'⟩
  rw [move, hfs]

theorem alone_move (hp : Alone c h r id made p v) (hm : p.Allows m) :
    ∃ made' w, Alone c h r id made' (p.move m) w ∧ (made = true → made' = true) ∧
      (made' = true → made = true ∨ w.HasMade) := by
  cases hm with
  | act ha => exact alone_step hp ha step_apply
  | around hv hst hf =>
    obtain ⟨-, rfl⟩ := hp.eq hv
    exact ⟨made, _, alone_change hp (.inl ⟨⟨_, hst⟩, hf⟩), fun h => h, .inl⟩
  | inside hv hw hf =>
    obtain ⟨-, rfl⟩ := hp.eq hv
    exact ⟨made, _, alone_change hp (.inr ⟨_, hw, hf⟩), fun h => h, .inl⟩

/-- The directory of the first invocation has been made at some time. -/
def HasMade (p : Pool) (ms : List Move) : Prop :=
  ∃ pre v, pre <+: ms ∧ (p.play pre).invocations[0]? = some v ∧ v.HasMade

/-- The directory is known to be made just when it was or has been made since. -/
theorem alone_play (hp : Alone c h r id made p v) (hms : p.Course ms) :
    ∃ made' w, Alone c h r id made' (p.play ms) w ∧
      (made' = true ↔ made = true ∨ p.HasMade ms) := by
  induction ms generalizing p v made with
  | nil =>
    refine ⟨made, v, hp, .inl, ?_⟩
    rintro (h | ⟨pre, w, hpre, hw, hm⟩)
    · exact h
    · obtain rfl : pre = [] := List.prefix_nil.mp hpre
      obtain ⟨-, rfl⟩ := hp.eq hw
      exact hp.made_of_hasMade hm
  | cons m ms ih =>
    obtain ⟨hm, hms⟩ := hms
    obtain ⟨made₁, v₁, hp₁, hmono₁, hmade₁⟩ := alone_move hp hm
    obtain ⟨made₂, v₂, hp₂, hmade₂⟩ := ih hp₁ hms
    -- The move that makes the directory shows in the state after it, which ends a prefix.
    refine ⟨made₂, v₂, hp₂, fun h => ?_, ?_⟩
    · rcases hmade₂.mp h with h | ⟨pre, w, hpre, hw, hmade⟩
      · refine (hmade₁ h).imp_right fun hmade => ?_
        exact ⟨[m], v₁, by simp, hp₁.first, hmade⟩
      · exact .inr ⟨m :: pre, w, by simpa using hpre, hw, hmade⟩
    · rintro (h | ⟨pre, w, hpre, hw, hmade⟩)
      · exact hmade₂.mpr (.inl (hmono₁ h))
      · cases pre with
        | nil =>
          obtain ⟨-, rfl⟩ := hp.eq hw
          exact hmade₂.mpr (.inl (hmono₁ (hp.made_of_hasMade hmade)))
        | cons m' pre =>
          obtain ⟨rfl, hrest⟩ := List.cons_prefix_cons.mp hpre
          exact hmade₂.mpr (.inr ⟨pre, w, hrest, hw, hmade⟩)

theorem course_of_acts (hms : ∀ m ∈ ms, ∃ a, m = .act a ∧ a.isOwn = true) : p.Course ms := by
  induction ms generalizing p with
  | nil => trivial
  | cons m ms ih =>
    obtain ⟨⟨a, rfl, ha⟩, hrest⟩ := List.forall_mem_cons.mp hms
    exact ⟨.act ha, ih hrest⟩

theorem course_append {ns : List Move} (h : p.Course (ms ++ ns)) :
    p.Course ms ∧ (p.play ms).Course ns := by
  induction ms generalizing p with
  | nil => exact ⟨trivial, h⟩
  | cons m ms ih =>
    obtain ⟨hm, hrest⟩ := h
    obtain ⟨hms, hns⟩ := ih hrest
    exact ⟨⟨hm, hms⟩, hns⟩

/-- What holds at first and after every move holds after a course. -/
theorem course_invariant {P : Pool → Prop} (hp : P p) (hms : p.Course ms)
    (hs : ∀ {p m}, P p → p.Allows m → P (p.move m)) : P (p.play ms) := by
  induction ms generalizing p with
  | nil => exact hp
  | cons m ms ih => exact ih (hs hp hms.1) hms.2

end Pool

end HandlerHost.Invoker
