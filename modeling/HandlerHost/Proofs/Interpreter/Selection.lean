import Mathlib.Data.Prod.Lex
import Mathlib.Order.Bounds.Basic
import HandlerHost.Interpreter

/-!
Which interpreter is chosen. Candidates are tried in their order, and for each the directories of
the search path in theirs, so the choice is at the least place of the two together.
-/
namespace HandlerHost.Interpreter

variable {h : Host} {l : Language} {program p : String} {args dirs : List String}
  {cs : List Command} {i j : Interpreter} {e : Error}

theorem searchPath_unset (hp : h.envValue? "PATH" = none) : searchPath h = [] := by
  rw [searchPath, hp]

/-- The search path has the entries that were put together, empty ones too. -/
theorem searchPath_entries (hd : dirs ≠ []) (hc : ∀ dir ∈ dirs, ':' ∉ dir.toList)
    (hp : h.envValue? "PATH" = some (String.intercalate ":" dirs)) : searchPath h = dirs := by
  have hs : [':'].intercalate (dirs.map String.toList) = (String.intercalate ":" dirs).toList := by
    rw [String.toList_intercalate]
    rfl
  have hm : ∀ cs ∈ dirs.map String.toList, ':' ∉ cs := by
    simpa using hc
  simp only [searchPath, hp]
  rw [← hs, List.splitOn_intercalate ':' hm (by simpa using hd)]
  simp

/-- Where candidates are found: the place of the candidate in its list and that of a directory in
the search path, in which the program is a file. -/
def hits (h : Host) (cs : List Command) : Set (ℕ ×ₗ ℕ) :=
  {q | ∃ c dir, cs[(ofLex q).1]? = some c ∧ (searchPath h)[(ofLex q).2]? = some dir ∧
    h.isFile (Host.Path.join dir c.program) = true}

/-- The interpreter at the least of these places, with the arguments of its candidate. -/
def IsFirst (h : Host) (cs : List Command) (i : Interpreter) : Prop :=
  ∃ m n c dir, IsLeast (hits h cs) (toLex (m, n)) ∧ cs[m]? = some c ∧
    (searchPath h)[n]? = some dir ∧ i = ⟨Host.Path.join dir c.program, c.args⟩

/-- One place at most is the least. -/
theorem IsFirst.unique (hi : IsFirst h cs i) (hj : IsFirst h cs j) : i = j := by
  obtain ⟨m, n, c, dir, hl, hc, hd, rfl⟩ := hi
  obtain ⟨m', n', c', dir', hl', hc', hd', rfl⟩ := hj
  have hq : (m, n) = (m', n') := toLex.injective (hl.unique hl')
  obtain ⟨rfl, rfl⟩ := Prod.mk.inj hq
  obtain rfl := Option.some.inj (hc.symm.trans hc')
  obtain rfl := Option.some.inj (hd.symm.trans hd')
  rfl

theorem IsFirst.hit (hi : IsFirst h cs i) : ∃ c ∈ cs, ∃ dir ∈ searchPath h,
    h.isFile (Host.Path.join dir c.program) = true ∧ i = ⟨Host.Path.join dir c.program, c.args⟩ := by
  obtain ⟨m, n, c, dir, ⟨⟨c', dir', hc', hd', hfile⟩, -⟩, hc, hd, rfl⟩ := hi
  obtain rfl := Option.some.inj (hc.symm.trans hc')
  obtain rfl := Option.some.inj (hd.symm.trans hd')
  exact ⟨c, List.mem_of_getElem? hc, dir, List.mem_of_getElem? hd, hfile, rfl⟩

theorem IsFirst.hits_ne_empty (hi : IsFirst h cs i) : hits h cs ≠ ∅ := by
  obtain ⟨m, n, c, dir, hl, -⟩ := hi
  exact Set.Nonempty.ne_empty ⟨_, hl.1⟩

/-- A name without a slash is looked for in one directory after the other. -/
theorem locate_eq_some (hb : Host.Path.hasSlash program = false) (hp : locate h program = some p) :
    ∃ (n : ℕ) (dir : String), (searchPath h)[n]? = some dir ∧ h.isFile (Host.Path.join dir program) = true ∧
      p = Host.Path.join dir program ∧ ∀ m < n, ∀ dir' : String, (searchPath h)[m]? = some dir' →
        h.isFile (Host.Path.join dir' program) = false := by
  rw [locate, if_neg (by simp [hb]), List.find?_eq_some_iff_getElem] at hp
  obtain ⟨hfile, n, hn, rfl, hbefore⟩ := hp
  simp only [List.length_map] at hn
  simp only [List.getElem_map] at hfile hbefore ⊢
  refine ⟨n, (searchPath h)[n], List.getElem?_eq_getElem hn, hfile, rfl, ?_⟩
  intro m hm dir' hd
  obtain ⟨_, rfl⟩ := List.getElem?_eq_some_iff.mp hd
  simpa using hbefore m hm

theorem locate_eq_none (hb : Host.Path.hasSlash program = false) :
    locate h program = none ↔
      ∀ dir ∈ searchPath h, h.isFile (Host.Path.join dir program) = false := by
  rw [locate, if_neg (by simp [hb])]
  simp

section Candidates

variable (hb : ∀ c ∈ cs, Host.Path.hasSlash c.program = false)

include hb

/-- Candidates that are searched for are not found exactly if no directory has one. -/
theorem findSome?_ofCommand?_eq_none : cs.findSome? (ofCommand? h) = none ↔ hits h cs = ∅ := by
  rw [List.findSome?_eq_none_iff, Set.eq_empty_iff_forall_notMem]
  constructor
  · rintro hn q ⟨c, dir, hc, hd, hfile⟩
    have hm : c ∈ cs := List.mem_of_getElem? hc
    have hnone : locate h c.program = none := by simpa [ofCommand?] using hn c hm
    have hno := (locate_eq_none (hb c hm)).mp hnone dir (List.mem_of_getElem? hd)
    simp [hno] at hfile
  · intro hn c hc
    suffices hnone : locate h c.program = none by simp [ofCommand?, hnone]
    refine (locate_eq_none (hb c hc)).mpr fun dir hd => ?_
    obtain ⟨m, hm⟩ := List.mem_iff_getElem?.mp hc
    obtain ⟨n, hn'⟩ := List.mem_iff_getElem?.mp hd
    exact Bool.eq_false_iff.mpr fun hfile => hn (toLex (m, n)) ⟨c, dir, hm, hn', hfile⟩

/-- Of the candidates the first that is found counts, in the first directory that has it. -/
theorem isFirst_of_findSome? (hi : cs.findSome? (ofCommand? h) = some i) : IsFirst h cs i := by
  obtain ⟨before, c, after, rfl, hc, hbefore⟩ := List.findSome?_eq_some_iff.mp hi
  obtain ⟨p, hp, rfl⟩ := Option.map_eq_some_iff.mp hc
  obtain ⟨n, dir, hd, hfile, rfl, hearlier⟩ := locate_eq_some (hb c (by simp)) hp
  have hm : (before ++ c :: after)[before.length]? = some c := by simp
  refine ⟨before.length, n, c, dir, ⟨⟨c, dir, hm, hd, hfile⟩, ?_⟩, hm, hd, rfl⟩
  rintro q ⟨c', dir', hc', hd', hfile'⟩
  rw [← toLex_ofLex q, Prod.Lex.toLex_le_toLex]
  -- Earlier candidates are found nowhere, and this one in no earlier directory.
  rcases Nat.lt_trichotomy before.length (ofLex q).1 with hlt | heq | hgt
  · exact .inl hlt
  · rw [← heq, hm] at hc'
    obtain rfl := Option.some.inj hc'
    refine .inr ⟨heq, Nat.le_of_not_lt fun hn => ?_⟩
    rw [hearlier _ hn dir' hd'] at hfile'
    cases hfile'
  · rw [List.getElem?_append_left hgt] at hc'
    have hc'' : c' ∈ before := List.mem_of_getElem? hc'
    have hnone : locate h c'.program = none := by simpa [ofCommand?] using hbefore c' hc''
    have hno := (locate_eq_none (hb c' (by simp [hc'']))).mp hnone dir' (List.mem_of_getElem? hd')
    rw [hno] at hfile'
    cases hfile'

theorem findSome?_ofCommand?_eq_some : cs.findSome? (ofCommand? h) = some i ↔ IsFirst h cs i := by
  refine ⟨isFirst_of_findSome? hb, fun hi => ?_⟩
  cases hj : cs.findSome? (ofCommand? h) with
  | none => exact absurd ((findSome?_ofCommand?_eq_none hb).mp hj) hi.hits_ne_empty
  | some j => rw [(isFirst_of_findSome? hb hj).unique hi]

end Candidates

/-- The interpreters of a language are searched for. -/
theorem bare_interpreters : ∀ c ∈ l.interpreters, Host.Path.hasSlash c.program = false := by
  cases l <;> decide

theorem resolve_none_eq_ok : resolve h l none = .ok i ↔ IsFirst h l.interpreters i := by
  rw [← findSome?_ofCommand?_eq_some bare_interpreters]
  cases hf : l.interpreters.findSome? (ofCommand? h) <;> simp [resolve, hf]

theorem resolve_none_eq_error : resolve h l none = .error e ↔
    hits h l.interpreters = ∅ ∧ e = .notFound l (l.interpreters.map Command.program) := by
  rw [← findSome?_ofCommand?_eq_none bare_interpreters]
  cases hf : l.interpreters.findSome? (ofCommand? h) <;> simp [resolve, hf, eq_comm]

/-- A bare program of a command is looked for as one candidate is. -/
theorem resolve_bare_eq_ok (hb : Host.Path.hasSlash program = false) :
    resolve h l (some (program :: args)) = .ok i ↔ IsFirst h [⟨program, args⟩] i := by
  rw [← findSome?_ofCommand?_eq_some (by simpa using hb)]
  cases hf : locate h program <;> simp [resolve, ofWords, ofCommand?, hf]

theorem resolve_bare_eq_error (hb : Host.Path.hasSlash program = false) :
    resolve h l (some (program :: args)) = .error e ↔
      hits h [⟨program, args⟩] = ∅ ∧ e = .commandNotFound program := by
  rw [← findSome?_ofCommand?_eq_none (by simpa using hb)]
  cases hf : locate h program <;> simp [resolve, ofWords, ofCommand?, hf, eq_comm]

theorem resolve_path_eq_ok (hs : Host.Path.hasSlash program = true) :
    resolve h l (some (program :: args)) = .ok i ↔
      h.isFile program = true ∧ i = ⟨program, args⟩ := by
  cases hf : h.isFile program <;> simp [resolve, ofWords, locate, hs, hf, eq_comm]

theorem resolve_path_eq_error (hs : Host.Path.hasSlash program = true) :
    resolve h l (some (program :: args)) = .error e ↔
      h.isFile program = false ∧ e = .commandNotFound program := by
  cases hf : h.isFile program <;> simp [resolve, ofWords, locate, hs, hf, eq_comm]

/-- Of commands only the empty one is refused as such. -/
theorem resolve_eq_emptyCommand {command : Option (List String)} :
    resolve h l command = .error .emptyCommand ↔ command = some [] := by
  rcases command with _ | _ | ⟨program, args⟩
  · simp [resolve_none_eq_error]
  · simp [resolve, ofWords]
  · cases hs : Host.Path.hasSlash program
    · simp [resolve_bare_eq_error hs]
    · simp [resolve_path_eq_error hs]

/-- Without a command the choice is the least place, candidates first and directories second, in
which the program is a file; with none such, all candidates are told. A command takes the place of
the candidates: a bare program is searched for alone, a path stands for itself. -/
theorem first_match (h : Host) (l : Language) :
    (h.envValue? "PATH" = none → searchPath h = []) ∧
      (∀ dirs : List String, dirs ≠ [] → (∀ dir ∈ dirs, ':' ∉ dir.toList) →
        h.envValue? "PATH" = some (String.intercalate ":" dirs) → searchPath h = dirs) ∧
      (∀ i, resolve h l none = .ok i ↔ IsFirst h l.interpreters i) ∧
      (∀ e, resolve h l none = .error e ↔ hits h l.interpreters = ∅ ∧
        e = .notFound l (l.interpreters.map Command.program)) ∧
      (∀ program args, Host.Path.hasSlash program = false →
        (∀ i, resolve h l (some (program :: args)) = .ok i ↔ IsFirst h [⟨program, args⟩] i) ∧
        ∀ e, resolve h l (some (program :: args)) = .error e ↔
          hits h [⟨program, args⟩] = ∅ ∧ e = .commandNotFound program) ∧
      (∀ program args, Host.Path.hasSlash program = true →
        (∀ i, resolve h l (some (program :: args)) = .ok i ↔
          h.isFile program = true ∧ i = ⟨program, args⟩) ∧
        ∀ e, resolve h l (some (program :: args)) = .error e ↔
          h.isFile program = false ∧ e = .commandNotFound program) ∧
      ∀ command, resolve h l command = .error .emptyCommand ↔ command = some [] := by
  refine ⟨searchPath_unset, fun _ => searchPath_entries, fun _ => resolve_none_eq_ok,
    fun _ => resolve_none_eq_error, fun program args hb => ?_, fun program args hs => ?_,
    fun _ => resolve_eq_emptyCommand⟩
  · exact ⟨fun _ => resolve_bare_eq_ok hb, fun _ => resolve_bare_eq_error hb⟩
  · exact ⟨fun _ => resolve_path_eq_ok hs, fun _ => resolve_path_eq_error hs⟩

/-- An earlier candidate counts more than an earlier directory. -/
theorem first_match_earlier_candidate :
    let h : Host := ⟨⟨[(["a"], .directory), (["b"], .directory), (["a", "bun"], .file "" true),
      (["b", "nodejs"], .file "" true)]⟩, [], .ofList [("PATH", "/a::/b")]⟩
    searchPath h = ["/a", "", "/b"] ∧ IsFirst h Language.javascript.interpreters ⟨"/b/nodejs", []⟩ ∧
      IsFirst h [⟨"bun", ["run"]⟩] ⟨"/a/bun", ["run"]⟩ ∧
      resolve h .javascript (some ["b/nodejs"]) = .ok ⟨"b/nodejs", []⟩ ∧
      hits h [⟨"deno", []⟩] = ∅ := by
  intro h
  obtain ⟨-, hentries, hok, -, hbare, hpath, -⟩ := first_match h .javascript
  have hp : h.envValue? "PATH" = some (String.intercalate ":" ["/a", "", "/b"]) := by decide
  have hnone : resolve h .javascript none = .ok ⟨"/b/nodejs", []⟩ := by decide +kernel
  have hbun : resolve h .javascript (some ["bun", "run"]) = .ok ⟨"/a/bun", ["run"]⟩ := by
    decide +kernel
  have hdeno : resolve h .javascript (some ["deno"]) = .error (.commandNotFound "deno") := by
    decide +kernel
  refine ⟨hentries _ (by simp) (by decide) hp, (hok _).mp hnone, ?_, ?_, ?_⟩
  · exact ((hbare "bun" ["run"] (by decide)).1 _).mp hbun
  · exact ((hpath "b/nodejs" [] (by decide)).1 _).mpr ⟨by decide +kernel, rfl⟩
  · exact (((hbare "deno" [] (by decide)).2 _).mp hdeno).1

end HandlerHost.Interpreter
