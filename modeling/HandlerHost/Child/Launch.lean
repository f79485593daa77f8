import HandlerHost.Isolation
import HandlerHost.Shell.Run

/-!
Starting a program. The working directory is entered first; then the program is looked up and must
be an executable file that the machine knows how to run.
-/
namespace HandlerHost.Child

open Host (Errno Place Node)

/-- A program that could not be started. -/
structure LaunchError where
  program : String
  errno : Errno
deriving DecidableEq

def LaunchError.text (e : LaunchError) : String :=
  "failed to spawn interpreter " ++ e.program ++ ": " ++ e.errno.text

/-- The environment of a process. A scrubbed one keeps the search path, and its home is the working
directory. -/
def environment (h : Host) (i : Isolation) (workdir : String) : Text.Dictionary String :=
  match i with
  | .process => h.env
  | .scrubbedEnv =>
    let path := (h.envValue? "PATH").toList.map fun p => ("PATH", p)
    .ofList (path ++ [("HOME", workdir), ("LANG", "C.UTF-8")])

/-- The directory a process runs in. -/
def enter (h : Host) (workdir : String) : Except Errno Place :=
  match h.files.stat h.cwd workdir with
  | .error e => .error e
  | .ok (p, .directory) => .ok p
  | .ok _ => .error .notDirectory

/-- An executable file at a path. -/
def executable (h : Host) (path : String) : Except Errno Place :=
  match h.files.stat h.cwd path with
  | .error e => .error e
  | .ok (p, .file _ true) => .ok p
  | .ok _ => .error .denied

/-- Where programs are looked for when the environment has no search path. -/
def defaultSearchPath : List String := ["/bin", "/usr/bin"]

/-- Tries paths in order, after one that failed. A path that leads nowhere is passed over, and a
denied one counts only if no other is there; any other failure ends the search. -/
def firstExecutable (h : Host) (denied : Bool) (last : Errno) : List String → Except Errno Place
  | [] => .error (if denied then .denied else last)
  | path :: paths =>
    match executable h path with
    | .ok p => .ok p
    | .error .denied => firstExecutable h true .denied paths
    | .error .noEntry => firstExecutable h denied .noEntry paths
    | .error .notDirectory => firstExecutable h denied .notDirectory paths
    | .error e => .error e

/-- A program by path, or by a name that is searched for. -/
def findExecutable (h : Host) (program : String) : Except Errno Place :=
  if Host.Path.hasSlash program then executable h program
  else if program.isEmpty then .error .noEntry
  else
    let dirs := if (h.envValue? "PATH").isNone then defaultSearchPath else Interpreter.searchPath h
    firstExecutable h false .noEntry (dirs.map fun d => Host.Path.join d program)

/-- The life of a program that the machine knows, by its name. -/
def lifeOf? (h : Host) (name program : String) (args : List String) : Option Life :=
  if Shell.shellNames.contains name then some (Shell.run h program args)
  else (Shell.Utility.programs.lookup name).map fun u =>
    (u (.start h program args) .usual args).life

/-- Starts an interpreter with a script as its last argument. -/
def launch (h : Host) (i : Interpreter) (script workdir : String) (isolation : Isolation) :
    Except LaunchError Life :=
  let run : Except Errno Life := do
    if (i.program :: i.args).any fun a => a.toList.contains '\x00' then throw .nulInArgument
    let cwd ← enter h workdir
    let child : Host := { h with cwd, env := environment h isolation workdir }
    let place ← findExecutable child i.program
    match lifeOf? child (place.getLast?.getD "") i.program (i.args ++ [script]) with
    | some life => return life
    | none => throw .badFormat
  run.mapError fun e => ⟨i.program, e⟩

end HandlerHost.Child
