import HandlerHost.Child.Launch
import HandlerHost.Proofs.Host.Path
import HandlerHost.Proofs.Host.Tree
import HandlerHost.Proofs.Interpreter.Selection

/-!
Whether the interpreter that was chosen is the one that starts. The choice looks from the host's
working directory and the start from the workspace, so they agree on absolute paths.
-/
namespace HandlerHost

open Host (FileSystem Place)

namespace Child

variable {h : Host} {path : String} {place : Place}

/-- The machine as a process sees it that was started in a directory. -/
def within (h : Host) (isolation : Isolation) (workdir : String) (cwd : Place) : Host :=
  { h with cwd, env := environment h isolation workdir }

theorem executable_eq_ok : executable h path = .ok place ↔
    ∃ content, h.files.stat h.cwd path = .ok (place, .file content true) := by
  unfold executable
  split <;> simp_all

/-- A path is started as what it leads to from the directory of the process. -/
theorem findExecutable_of_hasSlash (hs : Host.Path.hasSlash path = true) :
    findExecutable h path = executable h path := if_pos hs

end Child

namespace Interpreter

variable {h : Host} {l : Language} {command : Option (List String)} {i : Interpreter}

/-- What is chosen is searched for, or a path that a command gives. -/
theorem resolve_cases (hr : resolve h l command = .ok i) :
    (∃ cs : List Command, (∀ c ∈ cs, Host.Path.hasSlash c.program = false) ∧ IsFirst h cs i) ∨
      ∃ args, command = some (i.program :: args) ∧ Host.Path.hasSlash i.program = true ∧
        h.isFile i.program = true := by
  rcases command with _ | _ | ⟨program, args⟩
  · exact .inl ⟨_, bare_interpreters, resolve_none_eq_ok.mp hr⟩
  · cases hr
  · cases hs : Host.Path.hasSlash program with
    | false => exact .inl ⟨_, by simpa using hs, (resolve_bare_eq_ok hs).mp hr⟩
    | true =>
      obtain ⟨hfile, rfl⟩ := (resolve_path_eq_ok hs).mp hr
      exact .inr ⟨args, rfl, hs, hfile⟩

/-- What is chosen is a file, seen from the host's working directory. -/
theorem isFile_of_resolve (hr : resolve h l command = .ok i) : h.isFile i.program = true := by
  obtain ⟨cs, -, hfirst⟩ | ⟨args, -, -, hfile⟩ := resolve_cases hr
  · obtain ⟨c, -, dir, -, hfile, rfl⟩ := hfirst.hit
    exact hfile
  · exact hfile

/-- Absolute directories and commands make an absolute choice. -/
theorem isAbsolute_of_resolve (hr : resolve h l command = .ok i)
    (hd : ∀ dir ∈ searchPath h, Host.Path.isAbsolute dir = true)
    (hc : ∀ program ∈ command.bind List.head?, Host.Path.hasSlash program = true →
      Host.Path.isAbsolute program = true) : Host.Path.isAbsolute i.program = true := by
  obtain ⟨cs, hbare, hfirst⟩ | ⟨args, rfl, hs, -⟩ := resolve_cases hr
  · obtain ⟨c, hm, dir, hdir, -, rfl⟩ := hfirst.hit
    have hname : Host.Path.isAbsolute c.program = false := by
      apply Bool.eq_false_iff.mpr
      intro ha
      simpa [hbare c hm] using Host.Path.hasSlash_of_isAbsolute ha
    rw [Host.Path.isAbsolute_join hname]
    exact hd dir hdir
  · exact hc _ rfl hs

end Interpreter

namespace Child

variable {h : Host} {i : Interpreter} {script workdir : String} {cwd place : Place}
  {isolation : Isolation} {content : String} {runs : Bool}

/-- An absolute program is started as the file that it names on the host, if it may be run. -/
theorem findExecutable_of_isAbsolute (ha : Host.Path.isAbsolute i.program = true)
    (hp : h.files.stat h.cwd i.program = .ok (place, .file content runs)) :
    findExecutable (within h isolation workdir cwd) i.program =
      if runs then .ok place else .error .denied := by
  rw [findExecutable_of_hasSlash (Host.Path.hasSlash_of_isAbsolute ha), executable]
  have hs : (within h isolation workdir cwd).files.stat (within h isolation workdir cwd).cwd
      i.program = .ok (place, .file content runs) :=
    (FileSystem.stat_of_isAbsolute ha _ _).trans hp
  rw [hs]
  cases runs <;> rfl

theorem launch_of_isAbsolute (ha : Host.Path.isAbsolute i.program = true)
    (hp : h.files.stat h.cwd i.program = .ok (place, .file content runs))
    (hw : enter h workdir = .ok cwd) : launch h i script workdir isolation =
      if i.args.any fun a => a.toList.contains '\x00' then .error ⟨i.program, .nulInArgument⟩
      else if runs then
        (lifeOf? (within h isolation workdir cwd) (place.getLast?.getD "") i.program
          (i.args ++ [script])).elim (.error ⟨i.program, .badFormat⟩) .ok
      else .error ⟨i.program, .denied⟩ := by
  have hnul : i.program.toList.contains '\x00' = false := by
    simpa using FileSystem.nul_notMem_of_stat hp
  have hf : findExecutable (within h isolation workdir cwd) i.program =
      if runs then .ok place else .error .denied := findExecutable_of_isAbsolute ha hp
  simp only [within] at hf ⊢
  simp only [launch, List.any_cons, hnul, Bool.false_or, hw]
  split
  · rfl
  · simp only [bind, Except.bind, hf]
    cases runs with
    | false => rfl
    | true =>
      simp only [if_true]
      generalize lifeOf? _ _ _ _ = life
      cases life <;> rfl

end Child

namespace Interpreter

open Child (enter findExecutable launch lifeOf? within)

variable {h : Host} {l : Language} {command : Option (List String)} {i : Interpreter}

/-- The interpreter that was chosen is a file. An absolute choice, as absolute directories and
commands make it, is the file that starts from every workspace; if it may not be run, nothing
starts. A path that is not absolute starts as what it leads to from the workspace. -/
theorem starts_resolved (hr : resolve h l command = .ok i) :
    ((∀ dir ∈ searchPath h, Host.Path.isAbsolute dir = true) →
      (∀ program ∈ command.bind List.head?, Host.Path.hasSlash program = true →
        Host.Path.isAbsolute program = true) → Host.Path.isAbsolute i.program = true) ∧
    ∃ place content runs, h.files.stat h.cwd i.program = .ok (place, .file content runs) ∧
      ∀ workdir cwd isolation, enter h workdir = .ok cwd →
        (Host.Path.hasSlash i.program = true → ∀ other,
          findExecutable (within h isolation workdir cwd) i.program = .ok other ↔
            ∃ content, h.files.stat cwd i.program = .ok (other, .file content true)) ∧
        (Host.Path.isAbsolute i.program = true →
          findExecutable (within h isolation workdir cwd) i.program =
            (if runs then .ok place else .error .denied) ∧
          ∀ script, launch h i script workdir isolation =
            if i.args.any fun a => a.toList.contains '\x00' then .error ⟨i.program, .nulInArgument⟩
            else if runs then
              (lifeOf? (within h isolation workdir cwd) (place.getLast?.getD "") i.program
                (i.args ++ [script])).elim (.error ⟨i.program, .badFormat⟩) .ok
            else .error ⟨i.program, .denied⟩) := by
  obtain ⟨place, content, runs, hp⟩ := FileSystem.isFile_eq_true.mp (isFile_of_resolve hr)
  refine ⟨isAbsolute_of_resolve hr, place, content, runs, hp, ?_⟩
  intro workdir cwd isolation hw
  refine ⟨fun hs other => ?_, fun ha => ⟨Child.findExecutable_of_isAbsolute ha hp, ?_⟩⟩
  · rw [Child.findExecutable_of_hasSlash hs]
    exact Child.executable_eq_ok
  · intro script
    exact Child.launch_of_isAbsolute ha hp hw

/-- A shell that is found in an absolute directory is the one that runs. -/
theorem starts_resolved_shell :
    let h : Host := ⟨⟨[(["bin"], .directory), (["bin", "sh"], .file "" true), (["srv"], .directory),
      (["srv", "sh"], .file "" true), (["srv", "ws"], .directory)]⟩, ["srv"],
      .ofList [("PATH", "/usr/bin:/bin")]⟩
    let i : Interpreter := ⟨"/bin/sh", ["handler.py"]⟩
    resolve h .python (some ["sh", "handler.py"]) = .ok i ∧ enter h "ws" = .ok ["srv", "ws"] ∧
      findExecutable (within h .process "ws" ["srv", "ws"]) i.program = .ok ["bin", "sh"] := by
  intro h i
  have hr : resolve h .python (some ["sh", "handler.py"]) = .ok i := by decide +kernel
  have hw : enter h "ws" = .ok ["srv", "ws"] := by decide +kernel
  have hp : h.files.stat h.cwd i.program = .ok (["bin", "sh"], .file "" true) := by decide +kernel
  obtain ⟨habsolute, place, content, runs, hplace, hstart⟩ := starts_resolved hr
  obtain ⟨rfl, rfl, rfl⟩ : ["bin", "sh"] = place ∧ "" = content ∧ true = runs := by
    simpa [hp] using hplace
  have ha : Host.Path.isAbsolute i.program = true :=
    habsolute (by decide +kernel) (by decide +kernel)
  exact ⟨hr, hw, ((hstart "ws" _ .process hw).2 ha).1⟩

/-- A program that was found through a directory that is not absolute is not there when it is
started from the workspace. One that was found through an empty entry, in the working directory, is
searched for again, and another one of its name starts. -/
theorem resolved_not_started :
    let files : FileSystem := ⟨[(["bin"], .directory), (["bin", "sh"], .file "" true),
      (["srv"], .directory), (["srv", "sh"], .file "" true), (["srv", "ws"], .directory)]⟩
    let up : Host := ⟨files, ["srv"], .ofList [("PATH", "../bin")]⟩
    let here : Host := ⟨files, ["srv"], .ofList [("PATH", ":/bin")]⟩
    (resolve up .python (some ["sh", "handler.py"]) = .ok ⟨"../bin/sh", ["handler.py"]⟩ ∧
      files.stat up.cwd "../bin/sh" = .ok (["bin", "sh"], .file "" true) ∧
      launch up ⟨"../bin/sh", ["handler.py"]⟩ "runner.py" "/srv/ws" .process =
        .error ⟨"../bin/sh", .noEntry⟩) ∧
    resolve here .python (some ["sh", "handler.py"]) = .ok ⟨"sh", ["handler.py"]⟩ ∧
      files.stat here.cwd "sh" = .ok (["srv", "sh"], .file "" true) ∧
      enter here "/srv/ws" = .ok ["srv", "ws"] ∧
      findExecutable (within here .process "/srv/ws" ["srv", "ws"]) "sh" = .ok ["bin", "sh"] := by
  decide +kernel

end Interpreter

end HandlerHost
