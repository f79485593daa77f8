import HandlerHost.Proofs.Host.Lexical
import HandlerHost.Proofs.Workspace.Footprint

/-!
Which names a workspace takes for its files. The check looks at the characters of a name, and what
it lets pass has no part that leads up. So a file of the workspace stands in its directory, and
what is refused changes nothing.
-/
namespace HandlerHost.Workspace

open Host.FileSystem (SameOutside next)
open Host.Path (Normal lexical)

variable {w : Workspace} {h : Host} {cs : List Char} {name content path : String}

theorem hasTwoPoints_iff : hasTwoPoints cs = true ↔ ['.', '.'] <:+: cs := by
  fun_induction hasTwoPoints cs with
  | case1 cs => simpa using (List.prefix_append ['.', '.'] cs).isInfix
  | case2 c cs hn ih =>
    rw [ih, List.infix_cons_iff]
    constructor
    · exact .inr
    · rintro (⟨rest, hr⟩ | hr)
      · cases hr
        exact (hn rest rfl rfl).elim
      · exact hr
  | case3 => simp

/-- A name that passes is not empty and not absolute, and no part of it is two points. -/
theorem isSafeName_parts (hs : isSafeName name = true) :
    name ≠ "" ∧ Host.Path.isAbsolute name = false ∧ ".." ∉ Host.Path.parts name := by
  simp only [isSafeName, Bool.and_eq_true, Bool.not_eq_true'] at hs
  obtain ⟨⟨⟨hempty, hpoints⟩, habsolute⟩, -⟩ := hs
  refine ⟨?_, habsolute, fun hmem => ?_⟩
  · rintro rfl
    cases hempty
  · have hinfix := Host.Path.infix_of_mem_parts hmem
    rw [hasTwoPoints_iff.mpr hinfix] at hpoints
    cases hpoints

/-- The name leads out of a directory, be it only on its way. -/
def Escapes (dir name : String) : Prop :=
  ∃ ps, ps <+: Host.Path.parts name ∧ ¬ lexical dir <+: ps.foldl next (lexical dir)

theorem not_escapes {dir : String} (hs : isSafeName name = true) : ¬ Escapes dir name := by
  rintro ⟨ps, hps, hout⟩
  refine hout (Host.Path.prefix_foldl_next fun hmem => ?_)
  exact (isSafeName_parts hs).2.2 (hps.subset hmem)

theorem filePath_eq_ok : w.filePath name = .ok path ↔
    isSafeName name = true ∧ path = Host.Path.join w.path name := by
  unfold filePath
  split
  · rename_i hs
    simp [hs, eq_comm]
  · rename_i hs
    simp [hs]

theorem filePath_refused (hs : isSafeName name = false) :
    w.filePath name = .error (.invalidName name) := by
  rw [filePath, hs]
  rfl

theorem writeFile_refused (hs : isSafeName name = false) :
    w.writeFile h name content = (h, .error (.invalidName name)) := by
  rw [writeFile, filePath_refused hs]

/-- A path that passes stands in the directory. -/
theorem prefix_lexical (hp : w.filePath name = .ok path) : lexical w.path <+: lexical path := by
  obtain ⟨hs, rfl⟩ := filePath_eq_ok.mp hp
  obtain ⟨-, ha, hpoints⟩ := isSafeName_parts hs
  rw [Host.Path.lexical_join ha]
  exact Host.Path.prefix_foldl_next hpoints

/-- What is written goes into the directory, if anything is. -/
theorem writeFile_outside (hw : Host.Path.isAbsolute w.path = true) :
    ∃ fs, (w.writeFile h name content).1 = { h with files := fs } ∧
      SameOutside (lexical w.path) h.files fs := by
  have hsame : ∃ fs, h = { h with files := fs } ∧ SameOutside (lexical w.path) h.files fs :=
    ⟨_, rfl, .refl⟩
  unfold writeFile
  split
  · exact hsame
  · rename_i path hpath
    split
    · rename_i fs hwrite
      refine ⟨fs, rfl, ?_⟩
      obtain ⟨t, ht, hfree, rfl | ⟨x, rfl⟩⟩ := write_eq_ok hwrite
      · exact .refl
      have hroot : t.place ≠ [] := by
        intro he
        rw [he] at hfree
        exact hfree rfl
      have ha : Host.Path.isAbsolute path = true := by
        obtain ⟨hs, rfl⟩ := filePath_eq_ok.mp hpath
        rw [Host.Path.isAbsolute_join (isSafeName_parts hs).2.1, hw]
      apply Host.FileSystem.sameOutside_set hroot
      rw [Host.FileSystem.place_of_resolve ha ht]
      exact prefix_lexical hpath
    · exact hsame

/-- In a directory with a plain absolute path, a name that is taken names a place in that
directory. A name that would lead out of it, an absolute one and the empty one are refused, and
then nothing is written. Whatever the name is, nothing changes outside the directory. -/
theorem filePath_confined (hw : Normal w.path) :
    (∀ name path, w.filePath name = .ok path →
      path = Host.Path.join w.path name ∧ Host.Path.parts w.path <+: lexical path) ∧
    (∀ name, name = "" ∨ Host.Path.isAbsolute name = true ∨ Escapes w.path name →
      w.filePath name = .error (.invalidName name) ∧
        ∀ h content, w.writeFile h name content = (h, .error (.invalidName name))) ∧
    ∀ h name content, ∃ fs, (w.writeFile h name content).1 = { h with files := fs } ∧
      SameOutside (Host.Path.parts w.path) h.files fs := by
  rw [← Host.Path.lexical_of_normal hw]
  refine ⟨fun name path hp => ⟨(filePath_eq_ok.mp hp).2, prefix_lexical hp⟩, ?_,
    fun h name content => writeFile_outside hw.absolute⟩
  intro name hbad
  have hs : isSafeName name = false := by
    by_contra hs
    rw [Bool.not_eq_false] at hs
    obtain ⟨hempty, habsolute, -⟩ := isSafeName_parts hs
    rcases hbad with hn | hn | hn
    · exact hempty hn
    · rw [habsolute] at hn
      cases hn
    · exact not_escapes hs hn
  exact ⟨filePath_refused hs, fun h content => writeFile_refused hs⟩

/-- Points and slashes that lead nowhere, and a name that comes back after it has left. -/
theorem filePath_confined_dotted :
    let w : Workspace := ⟨⟨0⟩, "/tmp/w"⟩
    let path := Host.Path.join w.path "a//./b/"
    let name := "a/../../w/x"
    (w.filePath "a//./b/" = .ok path ∧ Host.Path.parts w.path <+: lexical path) ∧
      w.filePath name = .error (.invalidName name) ∧
        ∀ h content, w.writeFile h name content = (h, .error (.invalidName name)) := by
  intro w path name
  have hparts : Host.Path.parts w.path = ["tmp", "w"] := by decide +kernel
  have hw : Normal w.path := ⟨by decide +kernel, by rw [hparts]; decide⟩
  have hpath : w.filePath "a//./b/" = .ok path := by
    have hs : isSafeName "a//./b/" = true := by decide +kernel
    rw [filePath, if_pos hs]
  have hname : Host.Path.parts name = ["a", "..", "..", "w", "x"] := by decide +kernel
  have hout : Escapes w.path name := by
    refine ⟨["a", "..", ".."], by rw [hname]; decide, ?_⟩
    rw [Host.Path.lexical_of_normal hw, hparts]
    decide
  exact ⟨⟨hpath, ((filePath_confined hw).1 _ _ hpath).2⟩,
    (filePath_confined hw).2.1 name (.inr (.inr hout))⟩

end HandlerHost.Workspace
