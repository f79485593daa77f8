import HandlerHost.Proofs.Host.Tree
import HandlerHost.Workspace

/-!
What a workspace does to the files. Making its root adds directories that the root's path goes
through and nothing else. Its own directory is new, what is written goes into that, and when it is
removed the files are as they were before it was made.
-/
namespace HandlerHost.Workspace

open Host (FileSystem Node Place Target)
open Host.FileSystem (IsPlain Keeps SameOutside lookup_set lookup_removeAll place_target
  resolve_join resolve_outside sound_set stat_keeps)

variable {fs fs' base : FileSystem} {cwd d p : Place} {paths : List String} {n : Node}
  {name file content path root : String} {w : Workspace} {h : Host} {id : WorkspaceId}

/-- Files to which directories have been added that some paths name. -/
structure Provides (cwd : Place) (paths : List String) (fs fs' : FileSystem) : Prop where
  sound : fs'.Sound
  keeps : Keeps fs fs'
  adds : ∀ p n, fs'.lookup p = some n → fs.lookup p = some n ∨
    n = .directory ∧ ∃ path ∈ paths, fs'.stat cwd path = .ok (p, .directory)

theorem Provides.refl (hs : fs.Sound) : Provides cwd paths fs fs :=
  ⟨hs, fun _ _ hp => hp, fun _ _ hp => .inl hp⟩

theorem Provides.trans {fs'' : FileSystem} (h : Provides cwd paths fs fs')
    (h' : Provides cwd paths fs' fs'') : Provides cwd paths fs fs'' := by
  refine ⟨h'.sound, fun p n hp => h'.keeps _ _ (h.keeps _ _ hp), ?_⟩
  intro p n hp
  rcases h'.adds p n hp with hp | hp
  · rcases h.adds p n hp with hp | ⟨hn, path, hpath, hstat⟩
    · exact .inl hp
    · exact .inr ⟨hn, path, hpath, stat_keeps h'.keeps hstat⟩
  · exact .inr hp

theorem Provides.of_lookup (hs : fs.Sound) (he : ∀ p, fs'.lookup p = fs.lookup p) :
    Provides cwd paths fs fs' := by
  refine ⟨?_, fun p n hp => (he p).trans hp, fun p n hp => .inl ((he p).symm.trans hp)⟩
  intro d name n hn
  rw [he] at hn ⊢
  exact hs d name n hn

/-- A directory that is made lies at a free name of another. -/
theorem makeDirectory_eq_ok (hm : fs.makeDirectory cwd path = .ok fs') :
    ∃ d name, fs.resolve cwd path = .ok (.vacant d name) ∧
      fs' = fs.set (d ++ [name]) .directory ∧ fs.lookup d = some .directory ∧
      fs.lookup (d ++ [name]) = none := by
  unfold FileSystem.makeDirectory at hm
  split at hm
  · cases hm
  · cases hm
  · rename_i d name hr
    obtain ⟨hd, hv⟩ := (FileSystem.leads_of_resolve hr).1.vacant
    exact ⟨d, name, hr, (Except.ok.inj hm).symm, hd, hv⟩

theorem provides_makeDirectory (hs : fs.Sound) (hpath : path ∈ paths)
    (hm : fs.makeDirectory cwd path = .ok fs') : Provides cwd paths fs fs' := by
  obtain ⟨d, name, hr, rfl, hd, hv⟩ := makeDirectory_eq_ok hm
  have hroot : d ++ [name] ≠ [] := by simp
  have hsame : SameOutside (d ++ [name]) fs (fs.set (d ++ [name]) .directory) :=
    FileSystem.sameOutside_set hroot (List.prefix_refl _)
  have hnew : (fs.set (d ++ [name]) .directory).lookup (d ++ [name]) = some .directory := by
    rw [lookup_set hroot, if_pos rfl]
  refine ⟨sound_set hs hd (by simp [hv]), ?_, ?_⟩
  · intro q m hq
    exact (hsame q (hs.not_below hv hq)).trans hq
  · intro q m hq
    rw [lookup_set hroot] at hq
    split at hq
    · rename_i he
      obtain rfl := Option.some.inj hq
      subst he
      have hres := resolve_outside hs hsame hr
      rw [FileSystem.target, hnew] at hres
      exact .inr ⟨rfl, path, hpath, by simp [FileSystem.stat, hres, Node.isDirectory]⟩
    · exact .inl hq

theorem provides_makeInside {todo : List String} (hs : fs.Sound) (ht : todo ⊆ paths) :
    Provides cwd paths fs (fs.makeInside cwd todo).1 := by
  induction todo generalizing fs with
  | nil => exact .refl hs
  | cons path around ih =>
    obtain ⟨hpath, haround⟩ := List.cons_subset.mp ht
    unfold FileSystem.makeInside
    dsimp only
    split
    · exact .refl hs
    split
    · rename_i hm
      exact provides_makeDirectory hs hpath hm
    · have hin := ih hs haround
      split
      · rename_i hi
        rw [hi] at hin
        exact hin
      · rename_i hi
        rw [hi] at hin
        split
        · rename_i hm
          exact hin.trans (provides_makeDirectory hin.sound hpath hm)
        · exact hin
    · exact .refl hs

/-- The paths to a root and to the directories around it. -/
def rootPaths (root : String) : List String := root :: Host.Path.around root

theorem provides_createRoot (root : String) (hs : h.files.Sound) :
    ∃ fs, (createRoot h root).1 = { h with files := fs } ∧
      Provides h.cwd (rootPaths root) h.files fs := by
  refine ⟨_, ?_, provides_makeInside hs (List.Subset.refl (rootPaths root))⟩
  unfold createRoot FileSystem.makeDirectories rootPaths
  split
  · rename_i hm
    rw [hm]
  · rename_i hm
    rw [hm]

/-- A workspace's directory stands at a place that was free, with anything in it, unless it is gone
again. -/
structure Stands (cwd : Place) (w : Workspace) (base : FileSystem) (d : Place) (name : String)
    (fs : FileSystem) : Prop where
  base_sound : base.Sound
  free : base.resolve cwd w.path = .ok (.vacant d name)
  sound : fs.Sound
  outside : SameOutside (d ++ [name]) base fs
  kind : ∀ n, fs.lookup (d ++ [name]) = some n → n = .directory

/-- Files that differ in a workspace's directory only, which may be gone. -/
def Inside (cwd : Place) (w : Workspace) (fs fs' : FileSystem) : Prop :=
  fs'.Sound ∧ ∃ t, fs.resolve cwd w.path = .ok t ∧ SameOutside t.place fs fs' ∧
    ∀ n, fs'.lookup t.place = some n → n = .directory

theorem Stands.resolve (h : Stands cwd w base d name fs) :
    fs.resolve cwd w.path = .ok (fs.target d name) :=
  resolve_outside h.base_sound h.outside h.free

theorem Stands.inside (h : Stands cwd w base d name fs) (hi : Inside cwd w fs fs') :
    Stands cwd w base d name fs' := by
  obtain ⟨hs, t, ht, ho, hk⟩ := hi
  obtain rfl : fs.target d name = t := Except.ok.inj (h.resolve.symm.trans ht)
  rw [place_target] at ho hk
  exact ⟨h.base_sound, h.free, hs, h.outside.trans ho, hk⟩

/-- The directory is made where nothing was, or nothing is made. -/
theorem createDirectory_cases (root : String) (id : WorkspaceId) (hs : h.files.Sound) :
    (∃ e, createDirectory h root id = (h, .error e)) ∨
      ∃ fs d name, createDirectory h root id = ({ h with files := fs }, .ok (under root id)) ∧
        Stands h.cwd (under root id) h.files d name fs := by
  unfold createDirectory
  dsimp only
  split
  · rename_i fs hm
    obtain ⟨d, name, hr, rfl, hd, hv⟩ := makeDirectory_eq_ok hm
    refine .inr ⟨_, d, name, rfl, hs, hr, sound_set hs hd (by simp [hv]), ?_, ?_⟩
    · exact FileSystem.sameOutside_set (by simp) (List.prefix_refl _)
    · intro n hn
      rw [lookup_set (by simp), if_pos rfl] at hn
      exact (Option.some.inj hn).symm
  · exact .inl ⟨_, rfl⟩

/-- A write goes to where its path leads, and never to a directory. -/
theorem write_eq_ok (hw : fs.write cwd path content = .ok fs') :
    ∃ t, fs.resolve cwd path = .ok t ∧ fs.lookup t.place ≠ some .directory ∧
      (fs' = fs ∨ ∃ x, fs' = fs.set t.place (.file content x)) := by
  unfold FileSystem.write at hw
  split at hw
  · cases hw
  · cases hw
  · rename_i p _ x hr
    have hp := (FileSystem.leads_of_resolve hr).1.present
    split at hw
    · cases hw
    · exact ⟨_, hr, by simp [Target.place, hp], .inr ⟨x, (Except.ok.inj hw).symm⟩⟩
  · rename_i p hr
    have hp := (FileSystem.leads_of_resolve hr).1.present
    split at hw
    · cases hw
    · exact ⟨_, hr, by simp [Target.place, hp], .inl (Except.ok.inj hw).symm⟩
  · rename_i d name hr
    have hv := (FileSystem.leads_of_resolve hr).1.vacant.2
    split at hw
    · cases hw
    · exact ⟨_, hr, by simp [Target.place, hv], .inr ⟨false, (Except.ok.inj hw).symm⟩⟩

/-- A file of a plain name is written into the directory. -/
theorem Stands.write (hn : IsPlain file) (hs : Stands cwd w base d name fs)
    (hw : fs.write cwd (Host.Path.join w.path file) content = .ok fs') :
    Stands cwd w base d name fs' := by
  obtain ⟨t, ht, hfree, rfl | ⟨x, rfl⟩⟩ := write_eq_ok hw
  · exact hs
  obtain ⟨p, hp, rfl⟩ := resolve_join hn hs.resolve ht
  obtain rfl : p = d ++ [name] := by
    have hplace := congrArg Target.place hp
    rw [place_target] at hplace
    exact hplace.symm
  have hd : fs.lookup (d ++ [name]) = some .directory :=
    (FileSystem.leads_of_resolve (hp ▸ hs.resolve)).1.present
  rw [place_target] at hfree ⊢
  refine ⟨hs.base_sound, hs.free, sound_set hs.sound hd hfree, ?_, ?_⟩
  · exact hs.outside.trans (FileSystem.sameOutside_set (by simp) (List.prefix_append _ _))
  · intro n hn
    rw [lookup_set (by simp), if_neg (by simp)] at hn
    exact hs.kind n hn

theorem stands_writeFile (content : String) (hn : IsPlain file)
    (hs : Stands h.cwd w base d name h.files) :
    ∃ fs, (w.writeFile h file content).1 = { h with files := fs } ∧
      Stands h.cwd w base d name fs := by
  have hsame : ∃ fs, h = { h with files := fs } ∧ Stands h.cwd w base d name fs := ⟨_, rfl, hs⟩
  unfold writeFile filePath
  split
  · exact hsame
  rename_i path hpath
  split at hpath
  · cases hpath
    split
    · rename_i fs hw
      exact ⟨fs, rfl, hs.write hn hw⟩
    · exact hsame
  · cases hpath

/-- Once the directory is removed, all is as it was before it was made. -/
theorem lookup_remove (hs : Stands h.cwd w base d name h.files) :
    ∃ fs, w.remove h = { h with files := fs } ∧ ∀ p, fs.lookup p = base.lookup p := by
  have hv : base.lookup (d ++ [name]) = none :=
    (FileSystem.leads_of_resolve hs.free).1.vacant.2
  have hbelow : ∀ p, d ++ [name] <+: p → base.lookup p = none := fun p hp =>
    hs.base_sound.none_below hv hp
  cases hl : h.files.lookup (d ++ [name]) with
  | some n =>
    obtain rfl := hs.kind n hl
    have hstat : h.files.stat h.cwd w.path = .ok (d ++ [name], .directory) := by
      simp [FileSystem.stat, hs.resolve, FileSystem.target, hl, Node.isDirectory]
    refine ⟨_, by rw [remove, hstat], fun p => ?_⟩
    rw [lookup_removeAll (by simp)]
    split
    · rename_i hp
      exact (hbelow p hp).symm
    · rename_i hp
      exact hs.outside p hp
  | none =>
    have hstat : h.files.stat h.cwd w.path = .error .noEntry := by
      simp [FileSystem.stat, hs.resolve, FileSystem.target, hl]
    refine ⟨h.files, by rw [remove, hstat], fun p => ?_⟩
    by_cases hp : d ++ [name] <+: p
    · rw [hbelow p hp]
      exact hs.sound.none_below hl hp
    · exact hs.outside p hp

/-- All files that a request is turned into have plain names. -/
theorem isPlain_artifacts {r : Request} : ∀ f ∈ artifacts r, IsPlain f.1 := by
  have hplain : ∀ file, file.toList.head? ≠ some '/' → Host.Path.parts file = [file] →
      file ≠ "." → file ≠ ".." → file.utf8ByteSize ≤ FileSystem.maxName → IsPlain file :=
    fun file hr hp h h' hlen => ⟨Host.Path.not_isAbsolute hr, hp, h, h', hlen⟩
  have hsource : IsPlain r.language.sourceFile := by
    cases r.language <;>
      exact hplain _ (by decide) (by decide) (by decide) (by decide) (by decide)
  have hrunner : IsPlain r.language.runnerFile := by
    cases r.language <;>
      exact hplain _ (by decide) (by decide) (by decide) (by decide) (by decide)
  have hevent : IsPlain Runner.eventFile :=
    hplain _ (by decide) (by decide) (by decide) (by decide) (by decide)
  simp [artifacts, hsource, hrunner, hevent]

end HandlerHost.Workspace
