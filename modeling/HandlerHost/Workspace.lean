import HandlerHost.Host.Basic
import HandlerHost.Request
import HandlerHost.Runner.Script

/-!
The directory that an invocation runs in. It is made for one invocation, filled with the source,
the runner and the event, and removed afterwards.
-/
namespace HandlerHost

open Host (Errno FileSystem)

/-- A random identifier of 128 bits, six of which are fixed by its version and variant. -/
structure WorkspaceId where
  bits : BitVec 128
deriving DecidableEq

namespace WorkspaceId

/-- The version of random identifiers. -/
def randomVersion : Nat := 4

/-- Random bits with version and variant set. -/
def ofRandom (n : Nat) : WorkspaceId :=
  let bits := BitVec.ofNat 128 n
  let versionMask : BitVec 128 := (0xF : BitVec 128) <<< 76
  let variantMask : BitVec 128 := (0x3 : BitVec 128) <<< 62
  ⟨(bits &&& ~~~(versionMask ||| variantMask)) ||| (BitVec.ofNat 128 randomVersion <<< 76) |||
    ((0x2 : BitVec 128) <<< 62)⟩

def version (id : WorkspaceId) : Nat := ((id.bits >>> 76) &&& 0xF).toNat

/-- Thirty-two hexadecimal digits. -/
def text (id : WorkspaceId) : String :=
  let ds := Nat.toDigits 16 id.bits.toNat
  String.ofList (List.replicate (32 - ds.length) '0' ++ ds)

/-- The name of the directory. -/
def directoryName (id : WorkspaceId) : String := "fn-" ++ id.text

end WorkspaceId

structure Workspace where
  id : WorkspaceId
  path : String
deriving DecidableEq

namespace Workspace

inductive Error
  | createRoot (path : String) (e : Errno)
  | createDirectory (path : String) (e : Errno)
  | write (path : String) (e : Errno)
  | invalidName (name : String)
deriving DecidableEq

def Error.text : Error → String
  | createRoot path e => "failed to create workspace root " ++ path ++ ": " ++ e.text
  | createDirectory path e => "failed to create workspace " ++ path ++ ": " ++ e.text
  | write path e => "failed to write " ++ path ++ ": " ++ e.text
  | invalidName name => "invalid path: path traversal not allowed: " ++ name

/-- Makes the directory that all workspaces are made in. -/
def createRoot (h : Host) (root : String) : Host × Except Error Unit :=
  match h.files.makeDirectories h.cwd root with
  | (fs, none) => ({ h with files := fs }, .ok ())
  | (fs, some e) => ({ h with files := fs }, .error (.createRoot root e))

/-- The workspace of an identifier under a root. -/
def under (root : String) (id : WorkspaceId) : Workspace :=
  ⟨id, Host.Path.join root id.directoryName⟩

/-- Makes the directory of one workspace, which must not be there. -/
def createDirectory (h : Host) (root : String) (id : WorkspaceId) :
    Host × Except Error Workspace :=
  let w := under root id
  match h.files.makeDirectory h.cwd w.path with
  | .ok fs => ({ h with files := fs }, .ok w)
  | .error e => (h, .error (.createDirectory w.path e))

/-- Makes a workspace under a root, which is made too if it is missing. -/
def create (h : Host) (root : String) (id : WorkspaceId) : Host × Except Error Workspace :=
  match createRoot h root with
  | (h, .error e) => (h, .error e)
  | (h, .ok ()) => createDirectory h root id

/-- Two points in a row stand in the text. -/
def hasTwoPoints : List Char → Bool
  | '.' :: '.' :: _ => true
  | _ :: cs => hasTwoPoints cs
  | [] => false

/-- A name that leads to no other directory: not empty, not absolute, without two points in a row
and without a backslash. -/
def isSafeName (name : String) : Bool :=
  !name.isEmpty && !hasTwoPoints name.toList && !name.startsWith "/" &&
    !name.toList.contains '\\'

/-- The path of a file of the workspace. -/
def filePath (w : Workspace) (name : String) : Except Error String :=
  if isSafeName name then .ok (Host.Path.join w.path name) else .error (.invalidName name)

/-- Writes a file of the workspace. -/
def writeFile (w : Workspace) (h : Host) (name content : String) : Host × Except Error Unit :=
  match w.filePath name with
  | .error e => (h, .error e)
  | .ok path =>
    match h.files.write h.cwd path content with
    | .ok fs => ({ h with files := fs }, .ok ())
    | .error e => (h, .error (.write path e))

/-- The files that a request is turned into, in the order in which they are written. -/
def artifacts (r : Request) : List (String × String) :=
  [(r.language.sourceFile, r.code), (r.language.runnerFile, Runner.script r.language r.handler),
    (Runner.eventFile, r.event.compact)]

/-- Writes files until one fails. -/
def writeFiles (w : Workspace) (h : Host) : List (String × String) → Host × Except Error Unit
  | [] => (h, .ok ())
  | (name, content) :: rest =>
    match w.writeFile h name content with
    | (h, .ok ()) => writeFiles w h rest
    | (h, .error e) => (h, .error e)

/-- Writes the files of a request. -/
def writeArtifacts (w : Workspace) (h : Host) (r : Request) : Host × Except Error Unit :=
  w.writeFiles h (artifacts r)

/-- Removes the directory with all that is in it. One that is gone already is fine. -/
def remove (w : Workspace) (h : Host) : Host :=
  match h.files.stat h.cwd w.path with
  | .ok (p, .directory) => { h with files := h.files.removeAll p }
  | _ => h

end Workspace

end HandlerHost
