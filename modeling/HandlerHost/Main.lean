import HandlerHost.Cli.Run

/-!
The program. Commands are carried out on an image of the machine: its working directory, the part
of its environment that matters, the files that the arguments name and the programs on its search
path. Files that a command writes are written back.
-/
namespace HandlerHost.Image

open Host (Place)

/-- The names of the variables that a command may look at. -/
def environmentNames : List String :=
  ["PATH", "TMPDIR", "HOME", "LANG", "LC_ALL"] ++
    ["WORKSPACE_ROOT", "DEFAULT_TIMEOUT_MS", "MAX_TIMEOUT_MS", "MAX_CONCURRENT", "MAX_LOG_LINES",
      "ISOLATION"].map fun key => Config.variablePrefix ++ "_" ++ key

/-- Names that an argument may stand for. -/
def names (arg : String) : List String :=
  let value := String.ofList ((arg.toList.dropWhile (· != '=')).drop 1)
  [arg, arg ++ ".toml", value, value ++ ".toml"].filter fun n => !n.isEmpty

/-- Puts a file into an image, and the directories above it. -/
def addFile (h : Host) (path content : String) (executable : Bool) : Host :=
  let above := String.intercalate "/" (Host.Path.parts path).dropLast
  let above := if Host.Path.isAbsolute path then "/" ++ above else above
  let files := (h.files.makeDirectories h.cwd above).1
  match files.resolve h.cwd path with
  | .ok (.vacant d name) => { h with files := files.set (d ++ [name]) (.file content executable) }
  | _ => h

/-- An image without files. -/
def ofDirectory (cwd : String) (env : List (String × String)) : Host :=
  let files := (Host.FileSystem.empty.makeDirectories [] cwd).1
  ⟨files.withDevices, Host.Path.parts cwd, .ofList env⟩

/-- The paths at which a program may be found. -/
def programPaths (h : Host) : List String :=
  let names := Language.all.flatMap fun l => l.interpreters.map Command.program
  let names := names ++ Shell.shellNames ++ Shell.Utility.programs.map Prod.fst
  (Interpreter.searchPath h).flatMap fun dir => names.map (Host.Path.join dir)

/-- The programs of the commands in a configuration. -/
def configuredPrograms (h : Host) (line : Cli.CommandLine) : List String :=
  match Config.load h line.config with
  | .error _ => []
  | .ok c => c.interpreters.entries.filterMap fun e => e.2.head?

/-- The files that one image has and another has not, or has otherwise. -/
def changes (before after : Host) : List (String × String) :=
  after.files.entries.filterMap fun (p, n) =>
    match n with
    | .file content _ =>
      if before.files.lookup p == some n then none
      else some ("/" ++ String.intercalate "/" p, content)
    | _ => none

/-- The text of a file, if it can be read. -/
def readText? (path : String) : IO (Option String) := do
  try
    return some (← IO.FS.readFile path)
  catch _ =>
    return none

/-- A file is there and can be opened. -/
def canOpen (path : String) : IO Bool := do
  try
    let _ ← IO.FS.Handle.mk path .read
    return true
  catch _ =>
    return false

def addTexts (h : Host) (paths : List String) : IO Host :=
  paths.foldlM (fun h path => do
    match ← readText? path with
    | some text => return addFile h path text false
    | none => return h) h

def addPrograms (h : Host) (paths : List String) : IO Host :=
  paths.foldlM (fun h path => do
    if ← canOpen path then return addFile h path "" true else return h) h

/-- The image for some arguments. -/
def takeImage (args : List String) : IO Host := do
  let env ← environmentNames.filterMapM fun name => do
    return (← IO.getEnv name).map fun value => (name, value)
  let h := ofDirectory (toString (← IO.currentDir)) env
  let h ← addTexts h ((Cli.defaultOutput :: args).flatMap names)
  let h ← addPrograms h (programPaths h)
  match Cli.CommandLine.ofArguments args with
  | .error _ => return h
  | .ok line => addPrograms h (configuredPrograms h line)

/-- Standard input, if the command reads it. -/
def readInput (args : List String) : IO String := do
  match Cli.CommandLine.ofArguments args with
  | .ok ⟨_, .request none⟩ => (← IO.getStdin).readToEnd
  | _ => return ""

def randomId : IO WorkspaceId := do
  let words ← (List.replicate 4 ()).mapM fun _ => IO.rand 0 (UInt32.size - 1)
  return .ofRandom (words.foldl (fun n w => n * UInt32.size + w) 0)

end HandlerHost.Image

open HandlerHost

def main (args : List String) : IO UInt32 := do
  let h ← Image.takeImage args
  let o := Cli.run h args (← Image.readInput args) (← Image.randomId)
  for (path, content) in Image.changes h o.host do
    IO.FS.writeFile path content
  IO.print o.stdout
  if let some message := o.failure then IO.eprintln ("Error: " ++ message)
  if o.exitCode == 2 then IO.eprint Cli.helpText
  return UInt32.ofNat o.exitCode
