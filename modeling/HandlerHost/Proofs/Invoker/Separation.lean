import Mathlib
import HandlerHost.Proofs.Invoker.Tenancy

/-!
Workspaces of invocations that run at the same time. Whatever steps they take in whatever order, and
whatever identifiers they are given, every directory that has been made for one of them belongs to
one of them, holds what that one has written into it, and is changed by no other.
-/
namespace HandlerHost.Invoker

open HandlerHost.Host (FileSystem Place)
open Text (Dictionary)
open Workspace (Home Homes Housed Kept Provides artifacts rootPaths)

namespace Pool

variable {p q : Pool} {a : Action} {as bs : List Action} {homes homes' : Homes} {base : FileSystem}
  {c : Config} {h : Host} {d home home' place : Place} {n m : Nat} {v : Invocation}
  {w : Workspace} {root : String} {x : Home}

/-- Actions after each other, none of which comes while an invocation that it ends has something
half done. -/
def Orderly (p : Pool) : List Action → Prop
  | [] => True
  | a :: as => p.Spares a ∧ (p.apply a).Orderly as

/-- An invocation has a workspace with its directory at a place. -/
def Lives (p : Pool) (n : Nat) (home : Place) : Prop :=
  ∃ v w, p.invocations[n]? = some v ∧ v.workspace? p.root = some w ∧
    p.host.files.stat p.host.cwd w.path = .ok (home, .directory)

theorem orderly_append (h : p.Orderly (as ++ bs)) : p.Orderly as ∧ (p.run as).Orderly bs := by
  induction as generalizing p with
  | nil => exact ⟨trivial, h⟩
  | cons a as ih =>
    obtain ⟨ha, hrest⟩ := h
    obtain ⟨has, hbs⟩ := ih hrest
    exact ⟨⟨ha, has⟩, hbs⟩

/-- What holds at first and after every step holds after an orderly run. -/
theorem orderly_invariant {P : Pool → Prop} (hp : P p) (has : p.Orderly as)
    (hs : ∀ {p a}, P p → p.Spares a → P (p.apply a)) : P (p.run as) := by
  induction as generalizing p with
  | nil => exact hp
  | cons a as ih => exact ih (hs hp has.1) has.2

/-- Every invocation is lodged, and the homes are in the files. -/
def Sheltered (root : String) (p : Pool) : Prop :=
  ∃ homes, Tenants root homes p ∧ Kept root homes p.host

/-- The same, with what the homes have been added to. -/
def Founded (root : String) (base : FileSystem) (d : Place) (p : Pool) : Prop :=
  ∃ homes, Tenants root homes p ∧ Housed root base d homes p.host

theorem Sheltered.root_eq (ho : Sheltered root p) : p.root = root := by
  obtain ⟨homes, ht, -⟩ := ho
  exact ht.root_eq

theorem sheltered_start (hs : h.files.Sound) (hp : ofConfig? c h = some p) :
    Sheltered (c.resolvedRoot h) p := by
  obtain rfl := eq_of_ofConfig? hp
  have hflying : Flying ⟨c, h, c.maxConcurrent.toNat, [], [], []⟩ :=
    ⟨by simp, by simp, by simp⟩
  refine ⟨fun _ => none, ⟨rfl, hflying, fun _ _ => rfl, ?_⟩, .inl ⟨hs, fun _ => rfl⟩⟩
  intro n v hv
  simp at hv

theorem sheltered_step (ho : Sheltered root p) (ha : p.Spares a) : Sheltered root (p.apply a) := by
  obtain ⟨homes, ht, hk⟩ := ho
  obtain ⟨homes', ht', hshift⟩ := tenants_step ht ha step_apply
  refine ⟨homes', ht', ?_⟩
  rw [Shifts, ht.root_eq] at hshift
  rcases hshift with ⟨rfl, hh⟩ | ⟨rfl, -, hh⟩ | ⟨n, id, -, hd⟩
  · rwa [hh]
  · rw [hh]
    exact hk.createRoot
  · obtain ⟨base, d, -, hh⟩ := hk.deed hd
    exact .inr ⟨base, d, hh⟩

theorem founded_step (hf : Founded root base d p) (ha : p.Spares a) :
    Founded root base d (p.apply a) := by
  obtain ⟨homes, ht, hh⟩ := hf
  obtain ⟨homes', ht', hshift⟩ := tenants_step ht ha step_apply
  refine ⟨homes', ht', ?_⟩
  rw [Shifts, ht.root_eq] at hshift
  rcases hshift with ⟨rfl, he⟩ | ⟨rfl, -, he⟩ | ⟨n, id, -, hd⟩
  · rwa [he]
  · rwa [he, Workspace.createRoot_of_rooted hh.rooted_files]
  · exact hd.housed hh

/-- An invocation with a workspace has a home, which the workspace's path leads to. -/
theorem exists_home (ht : Tenants root homes p) (hv : p.invocations[n]? = some v)
    (hw : v.workspace? root = some w) :
    ∃ x, homes n = some x ∧ w.path = Host.Path.join root x.name := by
  obtain ⟨flight, -, hl⟩ := ht.lodged n v hv
  obtain ⟨hworkspace, hname⟩ := workspace?_of_lodging hl
  rw [hw] at hworkspace
  obtain ⟨x, hx, rfl⟩ := Option.map_eq_some_iff.mp hworkspace.symm
  exact ⟨x, hx, by rw [hname x hx]; rfl⟩

theorem lives_iff (ht : Tenants root homes p) (hh : Housed root base d homes p.host) :
    p.Lives n home ↔ ∃ x, homes n = some x ∧ home = d ++ [x.name] := by
  constructor
  · rintro ⟨v, w, hv, hw, hstat⟩
    rw [ht.root_eq] at hw
    obtain ⟨x, hx, hpath⟩ := exists_home ht hv hw
    rw [hpath, hh.stat hx] at hstat
    exact ⟨x, hx, (Prod.mk.inj (Except.ok.inj hstat)).1.symm⟩
  · rintro ⟨x, hx, rfl⟩
    cases hv : p.invocations[n]? with
    | none =>
      rw [ht.absent n hv] at hx
      cases hx
    | some v =>
      obtain ⟨flight, -, hl⟩ := ht.lodged n v hv
      obtain ⟨hworkspace, hname⟩ := workspace?_of_lodging hl
      rw [hx, Option.map_some] at hworkspace
      refine ⟨v, .under root v.id, hv, by rw [ht.root_eq, hworkspace], ?_⟩
      rw [Workspace.under, ← hname x hx]
      exact hh.stat hx

/-- Once a workspace has been made, the root stands. -/
theorem founded_of_workspace (ho : Sheltered root p) (hv : p.invocations[n]? = some v)
    (hw : v.workspace? root = some w) : ∃ base d, Founded root base d p := by
  obtain ⟨homes, ht, hk⟩ := ho
  obtain ⟨x, hx, -⟩ := exists_home ht hv hw
  obtain ⟨base, d, hh⟩ := hk.founded hx
  exact ⟨base, d, homes, ht, hh⟩

theorem founded_of_lives (ho : Sheltered root p) (hn : p.Lives n home) :
    ∃ base d, Founded root base d p := by
  obtain ⟨v, w, hv, hw, -⟩ := hn
  rw [ho.root_eq] at hw
  exact founded_of_workspace ho hv hw

/-- Two homes are not one in the other. -/
theorem eq_of_lives (ho : Sheltered root p) (hn : p.Lives n home) (hm : p.Lives m home')
    (hp : home <+: home') : n = m := by
  obtain ⟨base, d, homes, ht, hh⟩ := founded_of_lives ho hn
  obtain ⟨x, hx, rfl⟩ := (lives_iff ht hh).mp hn
  obtain ⟨y, hy, rfl⟩ := (lives_iff ht hh).mp hm
  exact hh.disjoint hx hy hp

/-- A workspace has its directory as long as it is there. -/
theorem lives_of_workspace (ho : Sheltered root p) (hv : p.invocations[n]? = some v)
    (hw : v.workspace? root = some w) :
    ∃ home, p.host.files.stat p.host.cwd w.path = .ok (home, .directory) := by
  obtain ⟨base, d, homes, ht, hh⟩ := founded_of_workspace ho hv hw
  obtain ⟨x, hx, hpath⟩ := exists_home ht hv hw
  rw [hpath]
  exact ⟨_, hh.stat hx⟩

/-- Nothing is left of a home that nobody has. -/
theorem lives_of_lookup (ho : Sheltered root p) (hn : p.Lives n home) (has : p.Orderly as)
    (hl : (p.run as).host.files.lookup home ≠ none) : ∃ m, (p.run as).Lives m home := by
  obtain ⟨base, d, homes, ht, hh⟩ := founded_of_lives ho hn
  obtain ⟨x, hx, rfl⟩ := (lives_iff ht hh).mp hn
  obtain ⟨homes', ht', hh'⟩ : Founded root base d (p.run as) :=
    orderly_invariant ⟨homes, ht, hh⟩ has founded_step
  -- The name was free in what the homes have been added to, so it is there as a home.
  by_contra hnone
  apply hl
  rw [hh'.outside, (hh.fits n x hx).free]
  intro m y hy hp
  have hname : y.name = x.name := Workspace.name_eq_of_below hp
  exact hnone ⟨m, (lives_iff ht' hh').mpr ⟨y, hy, by rw [hname]⟩⟩

/-- When its last file has been written, a workspace holds the files of its request. -/
theorem contents_of_written {i : Interpreter} (ho : Sheltered root p)
    (hv : p.invocations[n]? = some v) (hs : v.stage = .writing i w [])
    (ha : v.arrived = some (.ok ())) :
    ∃ home, p.host.files.stat p.host.cwd w.path = .ok (home, .directory) ∧
      ∀ rest node, rest ≠ [] → (p.host.files.lookup (home ++ rest) = some node ↔
        ∃ f ∈ artifacts v.request, rest = [f.1] ∧ node = .file f.2 false) := by
  obtain ⟨homes, ht, hk⟩ := ho
  obtain ⟨flight, -, hl⟩ := ht.lodged n v hv
  rw [hs, ha] at hl
  obtain ⟨rfl, hx⟩ := home_of_written hl
  obtain ⟨base, d, hh⟩ := hk.founded hx
  have hstat := hh.stat hx
  dsimp only at hstat
  refine ⟨_, hstat, ?_⟩
  intro rest node hrest
  rw [List.append_assoc, List.singleton_append, hh.inside n _ hx]
  exact Home.node?_iff_mem (Workspace.nodup_artifacts _) hrest

/-- A step changes files in the home of its invocation only, unless it makes the root. -/
theorem confined_step (ho : Sheltered root p) (ha : p.Spares a)
    (hplace : (p.apply a).host.files.lookup place ≠ p.host.files.lookup place) :
    p.MakesRoot a ∧ Provides p.host.cwd (rootPaths p.root) p.host.files (p.apply a).host.files ∨
      ∃ n home, p.actor? a = some n ∧ (p.Lives n home ∨ (p.apply a).Lives n home) ∧
        home <+: place := by
  obtain ⟨homes, ht, hk⟩ := ho
  obtain ⟨homes', ht', hshift⟩ := tenants_step ht ha step_apply
  rcases hshift with ⟨-, hh⟩ | ⟨-, hmakes, hh⟩ | ⟨n, id, hactor, hd⟩
  · rw [hh] at hplace
    exact absurd rfl hplace
  · obtain ⟨fs, hfs, hp⟩ := Workspace.provides_createRoot p.root hk.sound
    rw [hh, hfs]
    exact .inl ⟨hmakes, hp⟩
  · rw [ht.root_eq] at hd
    obtain ⟨base, d, hh, hh'⟩ := hk.deed hd
    obtain ⟨x, hx, hp⟩ := hh.confined hh' hd.others hplace
    refine .inr ⟨n, d ++ [x.name], hactor, hx.imp ?_ ?_, hp⟩
    · exact fun hx => (lives_iff ht hh).mpr ⟨x, hx, rfl⟩
    · exact fun hx => (lives_iff ht' hh').mpr ⟨x, hx, rfl⟩

/-- However invocations take their steps, as long as none goes away while something of it is half
done, and whatever identifiers they have been given: every workspace has its directory, and none is
in the directory of another; of the directories that have been made for workspaces, every one that
is there belongs to one workspace; a workspace whose last file has just been written holds the files
of its own request and nothing else; and a step changes no file outside the directory of its own
invocation, unless it makes the root. -/
theorem workspaces_separate (hsound : h.files.Sound) (hp : ofConfig? c h = some p)
    (has : p.Orderly as) :
    let q := p.run as
    (∀ (n : Nat) (v : Invocation) (w : Workspace), q.invocations[n]? = some v →
      v.workspace? q.root = some w → ∃ home,
        q.host.files.stat q.host.cwd w.path = .ok (home, .directory)) ∧
    (∀ n m home home', q.Lives n home → q.Lives m home' → home <+: home' → n = m) ∧
    (∀ pre n home, pre <+: as → (p.run pre).Lives n home → q.host.files.lookup home ≠ none →
      ∃! m, q.Lives m home) ∧
    (∀ (n : Nat) (v : Invocation) (i : Interpreter) (w : Workspace),
      q.invocations[n]? = some v → v.stage = .writing i w [] → v.arrived = some (.ok ()) →
      ∃ home, q.host.files.stat q.host.cwd w.path = .ok (home, .directory) ∧
        ∀ rest node, rest ≠ [] → (q.host.files.lookup (home ++ rest) = some node ↔
          ∃ f ∈ artifacts v.request, rest = [f.1] ∧ node = .file f.2 false)) ∧
    ∀ a place, q.Spares a →
      (q.apply a).host.files.lookup place ≠ q.host.files.lookup place →
      q.MakesRoot a ∧ Provides q.host.cwd (rootPaths q.root) q.host.files (q.apply a).host.files ∨
        ∃ n home, q.actor? a = some n ∧ (q.Lives n home ∨ (q.apply a).Lives n home) ∧
          home <+: place := by
  intro q
  have hstart : Sheltered (c.resolvedRoot h) p := sheltered_start hsound hp
  have hend : Sheltered (c.resolvedRoot h) q := orderly_invariant hstart has sheltered_step
  refine ⟨?_, ?_, ?_, ?_, ?_⟩
  · intro n v w hv hw
    rw [hend.root_eq] at hw
    exact lives_of_workspace hend hv hw
  · intro n m home home' hn hm hbelow
    exact eq_of_lives hend hn hm hbelow
  · rintro pre n home ⟨rest, rfl⟩ hn hl
    obtain ⟨hpre, hrest⟩ := orderly_append has
    have hmid : Sheltered (c.resolvedRoot h) (p.run pre) :=
      orderly_invariant hstart hpre sheltered_step
    obtain ⟨m, hm⟩ : ∃ m, q.Lives m home := by
      simp only [q, run_append] at hl ⊢
      exact lives_of_lookup hmid hn hrest hl
    exact ⟨m, hm, fun k hk => eq_of_lives hend hk hm (List.prefix_refl _)⟩
  · intro n v i w hv hs ha
    exact contents_of_written hend hv hs ha
  · intro a place ha hplace
    exact confined_step hend ha hplace

theorem orderly_of_stays (has : ∀ a ∈ as, ∀ n, a ≠ .abort n) : p.Orderly as := by
  induction as generalizing p with
  | nil => trivial
  | cons a as ih =>
    obtain ⟨ha, has⟩ := List.forall_mem_cons.mp has
    exact ⟨fun n v hn _ => absurd hn (ha n), ih has⟩

/-- Two invocations have the same identifier. The second finds the directory taken, and the first
keeps it. -/
theorem workspaces_separate_collision :
    let c : Config := { Config.empty with
      workspaceRoot := some "/w", interpreters := Dictionary.empty.insert "python" ["/i"] }
    let h : Host := ⟨FileSystem.empty.set ["i"] (.file "" true), [], .empty⟩
    let payload : Payload := ⟨"python", "x", .null, none, none⟩
    let id : WorkspaceId := ⟨0⟩
    let made : List Action := [.submit payload id, .submit payload id, .acquire 0, .settle 0 none,
      .proceed 0 none, .settle 0 none]
    let refused : List Action := [.acquire 1, .settle 0 none, .proceed 1 none, .settle 0 none,
      .proceed 1 none]
    let q := run ⟨c, h, 16, [], [], []⟩ (made ++ refused)
    q.invocations[1]?.map (·.stage.isEnded) = some true ∧
      ∃! m, q.Lives m ["w", id.directoryName] := by
  intro c h payload id made refused q
  let r : Request := ⟨.python, "x", .object [], "handler", none⟩
  let two : Pool := ⟨c, h, 16, [.start r id, .start r id], [], []⟩
  have hlanguage : Language.ofName? "python" = some .python := by cbv
  have hrequest : Request.ofPayload payload = .ok r := by
    have hname : isIdentifier defaultHandler = true := by decide
    simp only [Request.ofPayload, payload, hlanguage, Option.getD_none, hname]
    rfl
  have htwo : ∀ as, run ⟨c, h, 16, [], [], []⟩ (.submit payload id :: .submit payload id :: as) =
      two.run as := by
    intro as
    simp [run, apply, submit, hrequest, Except.map, two]
  have hmade : run ⟨c, h, 16, [], [], []⟩ made =
      two.run [.acquire 0, .settle 0 none, .proceed 0 none, .settle 0 none] := htwo _
  have hq : q =
      two.run ([.acquire 0, .settle 0 none, .proceed 0 none, .settle 0 none] ++ refused) :=
    htwo _
  have hsound : h.files.Sound :=
    FileSystem.sound_set (d := []) FileSystem.sound_empty rfl (by decide)
  have hpool : ofConfig? c h = some ⟨c, h, 16, [], [], []⟩ := rfl
  have horderly : Orderly ⟨c, h, 16, [], [], []⟩ (made ++ refused) :=
    orderly_of_stays (by simp [made, refused])
  have hlives : (run ⟨c, h, 16, [], [], []⟩ made).Lives 0 ["w", id.directoryName] := by
    rw [hmade]
    let mid := two.run [.acquire 0, .settle 0 none, .proceed 0 none, .settle 0 none]
    have hworkspace : mid.invocations[0]?.bind (·.workspace? mid.root) = some (.under "/w" id) := by
      decide +kernel
    have hstat : mid.host.files.stat mid.host.cwd (Workspace.under "/w" id).path =
        .ok (["w", id.directoryName], .directory) := by
      decide +kernel
    obtain ⟨v, hv, hw⟩ := Option.bind_eq_some_iff.mp hworkspace
    exact ⟨v, _, hv, hw, hstat⟩
  obtain ⟨-, -, hunique, -, -⟩ := workspaces_separate hsound hpool horderly
  have hthere : q.host.files.lookup ["w", id.directoryName] ≠ none := by
    rw [hq]
    decide +kernel
  have hended : q.invocations[1]?.map (·.stage.isEnded) = some true := by
    rw [hq]
    decide +kernel
  have hrun : run ⟨c, h, 16, [], [], []⟩ (made ++ refused) = q := rfl
  rw [hrun] at hunique
  clear_value q
  exact ⟨hended, hunique made 0 _ (List.prefix_append _ _) hlives hthere⟩

end Pool

end HandlerHost.Invoker
