import Mathlib.Logic.Function.Basic
import HandlerHost.Proofs.Workspace.Footprint

/-!
Workspaces of several invocations under one root. Each has a directory of its own below the root,
and what is in the directory is what has been written into it. An invocation changes the files in
its own directory and nowhere else, once the root is there.
-/
namespace HandlerHost

open Host (FileSystem Node Place Target)
open Host.FileSystem (IsPlain Keeps Usable leads_of_resolve lookup_removeAll lookup_set origin
  resolve_join)

theorem WorkspaceId.slash_notMem_toDigits (n : Nat) : '/' ∉ Nat.toDigits 16 n := by
  have hdigit : ∀ k < 16, '/' ≠ Nat.digitChar k := by decide
  induction n using Nat.strongRecOn with
  | ind n ih =>
    by_cases hn : n < 16
    · rw [Nat.toDigits_of_lt_base hn, List.mem_singleton]
      exact hdigit n hn
    · rw [Nat.toDigits_of_base_le (by decide) (by omega), List.mem_append, List.mem_singleton]
      rintro (h | h)
      · exact ih (n / 16) (by omega) h
      · exact hdigit (n % 16) (by omega) h

/-- The name of a directory has one part. -/
theorem WorkspaceId.parts_directoryName (id : WorkspaceId) :
    Host.Path.isAbsolute id.directoryName = false ∧
      Host.Path.parts id.directoryName = [id.directoryName] := by
  have hchars : id.directoryName.toList = 'f' :: 'n' :: '-' :: id.text.toList := by
    simp [directoryName]
  have hslash : '/' ∉ id.directoryName.toList := by
    rw [hchars]
    simp [text, slash_notMem_toDigits]
  refine ⟨Host.Path.not_isAbsolute (by simp [hchars]), ?_⟩
  have hne : id.directoryName ≠ "" := by
    intro he
    rw [he] at hchars
    cases hchars
  rw [Host.Path.parts, List.splitOn_eq_singleton hslash]
  simp [hne]

namespace Workspace

variable {h h' : Host} {root name file content : String} {id : WorkspaceId} {base fs : FileSystem}
  {cwd d q : Place} {n m : Nat} {files : List (String × String)} {w : Workspace}

/-- The directory of a workspace: its name, and the files that have been written into it. -/
structure Home where
  name : String
  files : List (String × String)

/-- What stands at a place below the directory. -/
def Home.node? (x : Home) : List String → Option Node
  | [] => some .directory
  | [file] => (x.files.lookup file).map (.file · false)
  | _ => none

theorem Home.eq_nil_of_node? {x : Home} {rest : List String} {node : Node}
    (hx : x.node? (rest ++ [file]) = some node) : rest = [] := by
  match rest with
  | [] => rfl
  | [_] => cases hx
  | _ :: _ :: _ => cases hx

/-- A file that is added stands beside the others. -/
theorem Home.node?_append {rest : List String} (hf : files.lookup file = none) :
    Home.node? ⟨name, files ++ [(file, content)]⟩ rest =
      if rest = [file] then some (.file content false) else Home.node? ⟨name, files⟩ rest := by
  match rest with
  | [] => rfl
  | [f] =>
    by_cases hfile : f = file
    · subst hfile
      simp [Home.node?, List.lookup_append, hf]
    · have hb : (f == file) = false := beq_eq_false_iff_ne.mpr hfile
      simp [Home.node?, List.lookup_append, hfile, List.lookup_cons, hb]
  | _ :: _ :: _ => simp [Home.node?]

/-- The directories of the invocations that have one. -/
abbrev Homes := Nat → Option Home

variable {homes homes' : Homes} {x y : Home}

/-- The path leads to the directory that all homes are in. -/
def Rooted (cwd : Place) (root : String) (fs : FileSystem) (d : Place) : Prop :=
  fs.Leads (origin cwd root) (Host.Path.parts root) (.present d .directory)

/-- A home that can be among others: its name is free in what they are added to, it is the only
part of a path, and no other has it. -/
structure Fits (cwd : Place) (root : String) (base : FileSystem) (d : Place) (homes : Homes) (n : Nat)
    (x : Home) : Prop where
  free : base.lookup (d ++ [x.name]) = none
  plain : IsPlain x.name
  usable : Usable cwd (Host.Path.join root x.name)
  apart : ∀ m y, m ≠ n → homes m = some y → y.name ≠ x.name

/-- Files to which homes have been added. -/
structure Housed (root : String) (base : FileSystem) (d : Place) (homes : Homes) (h : Host) :
    Prop where
  base_sound : base.Sound
  rooted : Rooted h.cwd root base d
  fits : ∀ n x, homes n = some x → Fits h.cwd root base d homes n x
  inside : ∀ n x, homes n = some x → ∀ rest, h.files.lookup (d ++ x.name :: rest) = x.node? rest
  outside : ∀ q, (∀ n x, homes n = some x → ¬ d ++ [x.name] <+: q) →
    h.files.lookup q = base.lookup q

theorem housed_none (hs : h.files.Sound) (hr : Rooted h.cwd root h.files d) :
    Housed root h.files d (fun _ => none) h :=
  ⟨hs, hr, nofun, nofun, fun _ _ => rfl⟩

theorem below_iff : d ++ [name] <+: q ↔ ∃ rest, q = d ++ name :: rest := by
  simp [List.prefix_iff_exists_append_eq, eq_comm]

theorem name_eq_of_below {name' : String} {rest : Place}
    (hp : d ++ [name] <+: d ++ name' :: rest) : name = name' := by
  obtain ⟨rest', he⟩ := below_iff.mp hp
  exact (List.cons.inj (List.append_cancel_left he)).1.symm

theorem eq_some_of_update {o : Option Home} (hy : Function.update homes n o m = some y) :
    m = n ∧ o = some y ∨ m ≠ n ∧ homes m = some y := by
  by_cases hm : m = n
  · subst hm
    rw [Function.update_self] at hy
    exact .inl ⟨rfl, hy⟩
  · rw [Function.update_of_ne hm] at hy
    exact .inr ⟨hm, hy⟩

namespace Housed

theorem keeps (hh : Housed root base d homes h) : Keeps base h.files := by
  intro q node hq
  rw [hh.outside q ?_]
  · exact hq
  · intro n x hx
    exact hh.base_sound.not_below (hh.fits n x hx).free hq

theorem rooted_files (hh : Housed root base d homes h) : Rooted h.cwd root h.files d :=
  hh.rooted.keeps hh.keeps

theorem lookup_home (hh : Housed root base d homes h) (hx : homes n = some x) :
    h.files.lookup (d ++ [x.name]) = some .directory := hh.inside n x hx []

/-- Files with homes in them are a tree. -/
theorem sound (hh : Housed root base d homes h) : h.files.Sound := by
  intro e name node hl
  by_cases hin : ∃ n x, homes n = some x ∧ d ++ [x.name] <+: e ++ [name]
  · obtain ⟨n, x, hx, hp⟩ := hin
    rcases List.prefix_concat_iff.mp hp with he | hp
    · obtain rfl : d = e := (List.append_inj' he rfl).1
      exact hh.rooted_files.present
    · obtain ⟨rest, rfl⟩ := below_iff.mp hp
      rw [List.append_assoc, List.cons_append, hh.inside n x hx] at hl
      obtain rfl := Home.eq_nil_of_node? hl
      exact hh.lookup_home hx
  · have hout : ∀ n x, homes n = some x → ¬ d ++ [x.name] <+: e ++ [name] :=
      fun n x hx hp => hin ⟨n, x, hx, hp⟩
    rw [hh.outside _ hout] at hl
    rw [hh.outside e fun n x hx hp => hout n x hx (hp.trans (List.prefix_append _ _))]
    exact hh.base_sound e name node hl

theorem resolve (hh : Housed root base d homes h) (hx : homes n = some x) :
    h.files.resolve h.cwd (Host.Path.join root x.name) =
      .ok (.present (d ++ [x.name]) .directory) := by
  have hplain := (hh.fits n x hx).plain
  apply (hh.fits n x hx).usable
  rw [Host.Path.parts_join hplain.relative, hplain.parts, origin,
    Host.Path.isAbsolute_join hplain.relative]
  exact hh.rooted_files.append
    (.down hh.rooted_files.present hplain.isName (.here (hh.lookup_home hx)))

theorem stat (hh : Housed root base d homes h) (hx : homes n = some x) :
    h.files.stat h.cwd (Host.Path.join root x.name) = .ok (d ++ [x.name], .directory) := by
  simp [FileSystem.stat, hh.resolve hx, Node.isDirectory]

/-- One invocation gets, changes or loses its home. -/
theorem update (hh : Housed root base d homes h) (o : Option Home)
    (hfits : ∀ y, o = some y → Fits h.cwd root base d homes n y)
    (hin : ∀ y, o = some y → ∀ rest, fs.lookup (d ++ y.name :: rest) = y.node? rest)
    (hgone : ∀ x q, homes n = some x → d ++ [x.name] <+: q →
      (∀ y, o = some y → ¬ d ++ [y.name] <+: q) → fs.lookup q = none)
    (hout : ∀ q, (∀ x, homes n = some x ∨ o = some x → ¬ d ++ [x.name] <+: q) →
      fs.lookup q = h.files.lookup q) :
    Housed root base d (Function.update homes n o) { h with files := fs } := by
  refine ⟨hh.base_sound, hh.rooted, ?_, ?_, ?_⟩
  · intro m y hy
    have hold : Fits h.cwd root base d homes m y := by
      rcases eq_some_of_update hy with ⟨rfl, ho⟩ | ⟨-, hold⟩
      · exact hfits y ho
      · exact hh.fits m y hold
    refine ⟨hold.free, hold.plain, hold.usable, ?_⟩
    intro k x hk hx
    rcases eq_some_of_update hx with ⟨rfl, ho⟩ | ⟨-, hx⟩
    · rcases eq_some_of_update hy with ⟨he, -⟩ | ⟨-, hy⟩
      · exact absurd he.symm hk
      · exact Ne.symm ((hfits x ho).apart m y (Ne.symm hk) hy)
    · exact hold.apart k x hk hx
  · intro m y hy rest
    rcases eq_some_of_update hy with ⟨-, hy⟩ | ⟨hm, hy⟩
    · exact hin y hy rest
    · rw [← hh.inside m y hy]
      apply hout
      rintro x (hx | hx) hp
      · exact (hh.fits n x hx).apart m y hm hy (name_eq_of_below hp).symm
      · exact (hfits x hx).apart m y hm hy (name_eq_of_below hp).symm
  · intro q hq
    have hself : ∀ y, o = some y → ¬ d ++ [y.name] <+: q := by
      intro y hy
      exact hq n y (by rwa [Function.update_self])
    by_cases hold : ∃ x, homes n = some x ∧ d ++ [x.name] <+: q
    · obtain ⟨x, hx, hp⟩ := hold
      rw [hgone x q hx hp hself, hh.base_sound.none_below (hh.fits n x hx).free hp]
    · rw [hout q ?_, hh.outside q ?_]
      · intro m x hx hp
        by_cases hm : m = n
        · subst hm
          exact hold ⟨x, hx, hp⟩
        · exact hq m x (by rwa [Function.update_of_ne hm]) hp
      · rintro x (hx | hx) hp
        · exact hold ⟨x, hx, hp⟩
        · exact hself x hx hp

/-- A directory is made under a name that is free. -/
theorem make (hh : Housed root base d homes h) (hn : homes n = none)
    (hv : h.files.lookup (d ++ [name]) = none) (hp : IsPlain name)
    (hu : Usable h.cwd (Host.Path.join root name)) :
    Housed root base d (Function.update homes n (some ⟨name, []⟩))
      { h with files := h.files.set (d ++ [name]) .directory } := by
  have hfree : base.lookup (d ++ [name]) = none := by
    cases hl : base.lookup (d ++ [name]) with
    | none => rfl
    | some node => cases hv.symm.trans (hh.keeps _ _ hl)
  apply hh.update
  · rintro y ⟨⟩
    refine ⟨hfree, hp, hu, ?_⟩
    rintro m x - hx rfl
    cases hv.symm.trans (hh.lookup_home hx)
  · rintro y ⟨⟩ rest
    rw [lookup_set (by simp)]
    split
    · rename_i he
      obtain rfl : rest = [] := by simpa using he
      rfl
    · rename_i he
      have hbelow : d ++ [name] <+: d ++ name :: rest := below_iff.mpr ⟨rest, rfl⟩
      rw [hh.sound.none_below hv hbelow]
      match rest with
      | [] => exact absurd rfl he
      | [_] => rfl
      | _ :: _ :: _ => rfl
  · simp [hn]
  · intro q hq
    rw [lookup_set (by simp), if_neg]
    rintro rfl
    exact hq _ (.inr rfl) (List.prefix_refl _)

/-- A write of a file that is not there yet. -/
theorem eq_of_write (hh : Housed root base d homes h) (hx : homes n = some ⟨name, files⟩)
    (hp : IsPlain file) (hf : files.lookup file = none)
    (hw : h.files.write h.cwd (Host.Path.join (Host.Path.join root name) file) content = .ok fs) :
    fs = h.files.set (d ++ [name, file]) (.file content false) := by
  have hvacant : h.files.lookup (d ++ [name, file]) = none := by
    rw [hh.inside n _ hx [file], Home.node?, hf, Option.map_none]
  obtain ⟨t, ht, -⟩ := write_eq_ok hw
  obtain ⟨e, he, rfl⟩ := resolve_join hp (hh.resolve hx) ht
  obtain ⟨rfl, -⟩ := Target.present.inj he
  rw [FileSystem.target, List.append_assoc, List.singleton_append, hvacant] at ht
  simp only [FileSystem.write, ht] at hw
  split at hw
  · cases hw
  · rw [← Except.ok.inj hw, List.append_assoc, List.singleton_append]

/-- A new file is written into a home. -/
theorem write (hh : Housed root base d homes h) (hx : homes n = some ⟨name, files⟩)
    (hp : IsPlain file) (hf : files.lookup file = none)
    (hw : h.files.write h.cwd (Host.Path.join (Host.Path.join root name) file) content = .ok fs) :
    Housed root base d (Function.update homes n (some ⟨name, files ++ [(file, content)]⟩))
      { h with files := fs } := by
  obtain rfl := hh.eq_of_write hx hp hf hw
  apply hh.update
  · rintro y ⟨⟩
    obtain ⟨hfree, hplain, husable, hapart⟩ := hh.fits n _ hx
    exact ⟨hfree, hplain, husable, hapart⟩
  · rintro y ⟨⟩ rest
    rw [lookup_set (by simp), hh.inside n _ hx, Home.node?_append hf]
    simp
  · intro x q hx' hq hself
    obtain rfl : ⟨name, files⟩ = x := Option.some.inj (hx.symm.trans hx')
    exact absurd hq (hself ⟨name, files ++ [(file, content)]⟩ rfl)
  · intro q hq
    rw [lookup_set (by simp), if_neg]
    rintro rfl
    exact hq _ (.inl hx) (below_iff.mpr ⟨[file], rfl⟩)

/-- A home is removed with all that is in it. -/
theorem remove (hh : Housed root base d homes h) (hx : homes n = some ⟨name, files⟩) :
    Housed root base d (Function.update homes n none)
      (Workspace.remove ⟨id, Host.Path.join root name⟩ h) := by
  simp only [Workspace.remove, hh.stat hx]
  apply hh.update
  · intro y hy
    cases hy
  · intro y hy
    cases hy
  · intro x q hx' hq _
    obtain rfl : ⟨name, files⟩ = x := Option.some.inj (hx.symm.trans hx')
    rw [lookup_removeAll (by simp), if_pos hq]
  · intro q hq
    rw [lookup_removeAll (by simp), if_neg (hq _ (.inl hx))]

/-- What two stages of the same files differ in is in the one home that has changed. -/
theorem confined (hh : Housed root base d homes h) (hh' : Housed root base d homes' h')
    (hsame : ∀ m, m ≠ n → homes' m = homes m) (hq : h'.files.lookup q ≠ h.files.lookup q) :
    ∃ x, (homes n = some x ∨ homes' n = some x) ∧ d ++ [x.name] <+: q := by
  by_contra hnone
  have hout : ∀ x, homes n = some x ∨ homes' n = some x → ¬ d ++ [x.name] <+: q :=
    fun x hx hp => hnone ⟨x, hx, hp⟩
  apply hq
  by_cases hin : ∃ m x, homes m = some x ∧ d ++ [x.name] <+: q
  · obtain ⟨m, x, hx, hp⟩ := hin
    have hm : m ≠ n := by
      rintro rfl
      exact hout x (.inl hx) hp
    obtain ⟨rest, rfl⟩ := below_iff.mp hp
    rw [hh.inside m x hx, hh'.inside m x ((hsame m hm).trans hx)]
  · rw [hh.outside q fun m x hx hp => hin ⟨m, x, hx, hp⟩, hh'.outside q ?_]
    intro m x hx hp
    by_cases hm : m = n
    · subst hm
      exact hout x (.inr hx) hp
    · rw [hsame m hm] at hx
      exact hin ⟨m, x, hx, hp⟩

/-- No home is in another. -/
theorem disjoint (hh : Housed root base d homes h) (hx : homes n = some x) (hy : homes m = some y)
    (hp : d ++ [x.name] <+: d ++ [y.name]) : n = m := by
  by_contra hn
  exact (hh.fits m y hy).apart n x hn hx (name_eq_of_below hp)

end Housed

/-- A root that is there is not made again. -/
theorem createRoot_of_rooted (hr : Rooted h.cwd root h.files d) : (createRoot h root).1 = h := by
  have hinside : (h.files.makeDirectories h.cwd root).1 = h.files := by
    rw [FileSystem.makeDirectories, FileSystem.makeInside]
    split
    · rfl
    · rename_i hroot
      rcases FileSystem.resolve_of_leads (Bool.eq_false_iff.mpr hroot) hr with hres | ⟨e, hres, he⟩
      · simp [FileSystem.makeDirectory, hres]
      · have hm : h.files.makeDirectory h.cwd root = .error e := by
          simp [FileSystem.makeDirectory, hres]
        rw [hm]
        split
        · rename_i hok
          cases hok
        · rename_i hno
          exact absurd (Except.error.inj hno) he
        · rfl
  unfold createRoot
  split
  all_goals
    rename_i hm
    rw [hm] at hinside
    subst hinside
    rfl

/-- The directory is made where the root leads to, under a free name. -/
theorem createDirectory_ok (hc : createDirectory h root id = (h', .ok w)) :
    ∃ d, Rooted h.cwd root h.files d ∧ h.files.lookup (d ++ [id.directoryName]) = none ∧
      IsPlain id.directoryName ∧ Usable h.cwd (under root id).path ∧
      h' = { h with files := h.files.set (d ++ [id.directoryName]) .directory } := by
  obtain ⟨hrelative, hparts⟩ := id.parts_directoryName
  unfold createDirectory at hc
  dsimp only at hc
  split at hc
  · rename_i fs hm
    obtain ⟨d, name, hr, rfl, -, hv⟩ := makeDirectory_eq_ok hm
    obtain ⟨hl, husable⟩ := leads_of_resolve hr
    rw [under, Host.Path.parts_join hrelative, hparts, origin,
      Host.Path.isAbsolute_join hrelative] at hl
    obtain ⟨e, hroot, hfree⟩ := hl.split (by simp)
    obtain ⟨rfl, rfl, hname⟩ := hfree.free_of_vacant
    exact ⟨d, hroot, hv, ⟨hrelative, hparts, hname⟩, husable, (Prod.mk.inj hc).1.symm⟩
  · cases (Prod.mk.inj hc).2

theorem writeFile_ok (hw : w.writeFile h file content = (h', .ok ())) :
    ∃ fs, h.files.write h.cwd (Host.Path.join w.path file) content = .ok fs ∧
      h' = { h with files := fs } := by
  unfold writeFile filePath at hw
  split at hw
  · cases (Prod.mk.inj hw).2
  · rename_i path hpath
    split at hpath
    · cases hpath
      split at hw
      · rename_i fs hfs
        exact ⟨fs, hfs, (Prod.mk.inj hw).1.symm⟩
      · cases (Prod.mk.inj hw).2
    · cases hpath

theorem host_remove (w : Workspace) : ∃ fs, w.remove h = { h with files := fs } := by
  unfold remove
  split <;> exact ⟨_, rfl⟩

/-- The files of a request have different names. -/
theorem nodup_artifacts (r : Request) : ((artifacts r).map Prod.fst).Nodup := by
  cases hl : r.language <;> simp only [artifacts, hl, List.map_cons, List.map_nil] <;> decide

/-- A file that is still to be written is not among those written before. -/
theorem lookup_of_artifacts {r : Request} {rest : List (String × String)}
    (ha : artifacts r = files ++ (file, content) :: rest) : files.lookup file = none := by
  have hnodup := nodup_artifacts r
  rw [ha, List.map_append, List.nodup_append] at hnodup
  rw [List.lookup_eq_none_iff]
  intro f hf
  have hne := hnodup.2.2 f.1 (List.mem_map_of_mem hf) file (by simp)
  simpa using Ne.symm hne

theorem lookup_iff_mem (hn : (files.map Prod.fst).Nodup) :
    files.lookup file = some content ↔ (file, content) ∈ files := by
  rw [List.lookup_eq_some_iff]
  constructor
  · rintro ⟨before, after, rfl, -⟩
    simp
  · intro hm
    obtain ⟨before, after, rfl⟩ := List.append_of_mem hm
    refine ⟨before, after, rfl, fun f hf => ?_⟩
    rw [List.map_append, List.nodup_append] at hn
    have hne := hn.2.2 f.1 (List.mem_map_of_mem hf) file (by simp)
    simpa using Ne.symm hne

/-- Below a home are its files and nothing else. -/
theorem Home.node?_iff_mem {rest : List String} {node : Node}
    (hn : (x.files.map Prod.fst).Nodup) (hrest : rest ≠ []) :
    x.node? rest = some node ↔ ∃ f ∈ x.files, rest = [f.1] ∧ node = .file f.2 false := by
  match rest with
  | [] => exact absurd rfl hrest
  | [file] =>
    rw [Home.node?, Option.map_eq_some_iff]
    constructor
    · rintro ⟨content, hc, rfl⟩
      exact ⟨_, (lookup_iff_mem hn).mp hc, rfl, rfl⟩
    · rintro ⟨f, hf, he, rfl⟩
      obtain rfl : file = f.1 := List.singleton_inj.mp he
      exact ⟨f.2, (lookup_iff_mem hn).mpr hf, rfl⟩
  | _ :: _ :: _ => simp [Home.node?]

/-- What one invocation does at once to the files and to its home. -/
inductive Deed (root : String) (id : WorkspaceId) (n : Nat) (homes : Homes) (h : Host) :
    Homes → Host → Prop
  | make {w : Workspace} {h' : Host} (hn : homes n = none)
      (hc : createDirectory h root id = (h', .ok w)) :
      Deed root id n homes h (Function.update homes n (some ⟨id.directoryName, []⟩)) h'
  | write {file content : String} {files : List (String × String)} {h' : Host}
      (hx : homes n = some ⟨id.directoryName, files⟩) (hp : IsPlain file)
      (hf : files.lookup file = none)
      (hw : (under root id).writeFile h file content = (h', .ok ())) :
      Deed root id n homes h
        (Function.update homes n (some ⟨id.directoryName, files ++ [(file, content)]⟩)) h'
  | remove {files : List (String × String)}
      (hx : homes n = some ⟨id.directoryName, files⟩) :
      Deed root id n homes h (Function.update homes n none) ((under root id).remove h)

namespace Deed

theorem others (hd : Deed root id n homes h homes' h') : ∀ m, m ≠ n → homes' m = homes m := by
  intro m hm
  cases hd <;> exact Function.update_of_ne hm _ _

/-- Files with homes in them stay so. -/
theorem housed (hd : Deed root id n homes h homes' h') (hh : Housed root base d homes h) :
    Housed root base d homes' h' := by
  cases hd with
  | make hn hc =>
    obtain ⟨e, hr, hv, hp, hu, rfl⟩ := createDirectory_ok hc
    obtain ⟨rfl, -⟩ := Target.present.inj (hr.unique hh.rooted_files)
    exact hh.make hn hv hp hu
  | write hx hp hf hw =>
    obtain ⟨fs, hfs, rfl⟩ := writeFile_ok hw
    exact hh.write hx hp hf hfs
  | remove hx => exact hh.remove hx

/-- When nobody has a home, one is made where the root leads to. -/
theorem rooted (hd : Deed root id n homes h homes' h') (hn : ∀ m, homes m = none) :
    ∃ d, Rooted h.cwd root h.files d := by
  cases hd with
  | make _ hc =>
    obtain ⟨d, hr, -⟩ := createDirectory_ok hc
    exact ⟨d, hr⟩
  | write hx => simp [hn] at hx
  | remove hx => simp [hn] at hx

end Deed

/-- The files before the first home is made, or with homes in them. -/
def Kept (root : String) (homes : Homes) (h : Host) : Prop :=
  h.files.Sound ∧ (∀ n, homes n = none) ∨ ∃ base d, Housed root base d homes h

theorem Kept.sound (hk : Kept root homes h) : h.files.Sound := by
  rcases hk with ⟨hs, -⟩ | ⟨base, d, hh⟩
  · exact hs
  · exact hh.sound

theorem Kept.founded (hk : Kept root homes h) (hx : homes n = some x) :
    ∃ base d, Housed root base d homes h := by
  rcases hk with ⟨-, hn⟩ | hh
  · rw [hn] at hx
    cases hx
  · exact hh

/-- A deed finds the homes in place and leaves them so. -/
theorem Kept.deed (hk : Kept root homes h) (hd : Deed root id n homes h homes' h') :
    ∃ base d, Housed root base d homes h ∧ Housed root base d homes' h' := by
  rcases hk with ⟨hs, hn⟩ | ⟨base, d, hh⟩
  · obtain ⟨d, hr⟩ := hd.rooted hn
    obtain rfl : homes = fun _ => none := funext hn
    exact ⟨h.files, d, housed_none hs hr, hd.housed (housed_none hs hr)⟩
  · exact ⟨base, d, hh, hd.housed hh⟩

theorem Kept.createRoot (hk : Kept root homes h) : Kept root homes (createRoot h root).1 := by
  rcases hk with ⟨hs, hn⟩ | ⟨base, d, hh⟩
  · obtain ⟨fs, hfs, hp⟩ := provides_createRoot root hs
    rw [hfs]
    exact .inl ⟨hp.sound, hn⟩
  · rw [createRoot_of_rooted hh.rooted_files]
    exact .inr ⟨base, d, hh⟩

end Workspace

end HandlerHost
