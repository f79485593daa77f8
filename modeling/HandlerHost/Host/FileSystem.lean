import HandlerHost.Host.Errno
import HandlerHost.Host.Path

/-!
A file system without links: a finite map from places to files and directories. A place is the
list of names from the root; the root is always a directory.
-/
namespace HandlerHost.Host

/-- The names from the root to a file or directory. -/
abbrev Place := List String

inductive Node
  | directory
  | file (content : String) (executable : Bool)
  /-- A device that swallows what is written and has nothing to read. -/
  | sink
deriving DecidableEq, Inhabited

namespace Node

def isFile : Node → Bool
  | file .. => true
  | _ => false

def isDirectory : Node → Bool
  | directory => true
  | _ => false

end Node

structure FileSystem where
  entries : List (Place × Node)
deriving DecidableEq, Inhabited

/-- Where a path leads: to something, or to a name that is free in a directory. -/
inductive Target
  | present (place : Place) (node : Node)
  | vacant (directory : Place) (name : String)
deriving DecidableEq

namespace FileSystem

def empty : FileSystem := ⟨[]⟩

def lookup (fs : FileSystem) (p : Place) : Option Node :=
  if p.isEmpty then some .directory else fs.entries.lookup p

/-- Puts a node at a place. -/
def set (fs : FileSystem) (p : Place) (n : Node) : FileSystem :=
  ⟨(p, n) :: fs.entries.filter fun e => e.1 != p⟩

/-- The devices that every machine has. -/
def withDevices (fs : FileSystem) : FileSystem :=
  (fs.set ["dev"] .directory).set ["dev", "null"] .sink

/-- A place and all below it are gone. -/
def removeAll (fs : FileSystem) (p : Place) : FileSystem :=
  ⟨fs.entries.filter fun e => !p.isPrefixOf e.1⟩

/-- The names in a directory, in ascending order. -/
def list (fs : FileSystem) (p : Place) : List String :=
  let names := fs.entries.filterMap fun e =>
    if e.1.length == p.length + 1 && p.isPrefixOf e.1 then e.1.getLast? else none
  names.mergeSort fun a b => decide (a ≤ b)

/-- The longest name of a file, in bytes. -/
def maxName : Nat := 255

/-- A path as long as this is too long. -/
def maxPath : Nat := 4096

def above (p : Place) : Place := p.dropLast

/-- Follows the parts of a path from a directory. All but the last must be directories. -/
def follow (fs : FileSystem) : Place → List String → Except Errno Target
  | at_, [] =>
    match fs.lookup at_ with
    | some n => .ok (.present at_ n)
    | none => .error .noEntry
  | at_, part :: rest =>
    match fs.lookup at_ with
    | none => .error .noEntry
    | some (.file ..) | some .sink => .error .notDirectory
    | some .directory =>
      if part == "." then follow fs at_ rest
      else if part == ".." then follow fs (above at_) rest
      else if maxName < part.utf8ByteSize then .error .nameTooLong
      else
        match rest, fs.lookup (at_ ++ [part]) with
        | [], none => .ok (.vacant at_ part)
        | _, _ => follow fs (at_ ++ [part]) rest

/-- Where a path leads from a working directory. -/
def resolve (fs : FileSystem) (cwd : Place) (path : String) : Except Errno Target :=
  if path.toList.contains '\x00' then .error .nulInName
  else if path.isEmpty then .error .noEntry
  else if maxPath ≤ path.utf8ByteSize then .error .nameTooLong
  else fs.follow (if Path.isAbsolute path then [] else cwd) (Path.parts path)

/-- The node that a path names. A file's name cannot end with a slash. -/
def stat (fs : FileSystem) (cwd : Place) (path : String) : Except Errno (Place × Node) :=
  match fs.resolve cwd path with
  | .error e => .error e
  | .ok (.vacant ..) => .error .noEntry
  | .ok (.present p n) =>
    if !n.isDirectory && Path.endsWithSlash path then .error .notDirectory else .ok (p, n)

def isFile (fs : FileSystem) (cwd : Place) (path : String) : Bool :=
  match fs.stat cwd path with
  | .ok (_, n) => n.isFile
  | .error _ => false

def isDirectory (fs : FileSystem) (cwd : Place) (path : String) : Bool :=
  match fs.stat cwd path with
  | .ok (_, n) => n.isDirectory
  | .error _ => false

def pathExists (fs : FileSystem) (cwd : Place) (path : String) : Bool :=
  (fs.stat cwd path).toOption.isSome

def read (fs : FileSystem) (cwd : Place) (path : String) : Except Errno String :=
  match fs.stat cwd path with
  | .error e => .error e
  | .ok (_, .file content _) => .ok content
  | .ok (_, .sink) => .ok ""
  | .ok (_, .directory) => .error .isDirectory

/-- Writes a whole file; a new one is not executable. -/
def write (fs : FileSystem) (cwd : Place) (path content : String) : Except Errno FileSystem :=
  match fs.resolve cwd path with
  | .error e => .error e
  | .ok (.present _ .directory) => .error .isDirectory
  | .ok (.present p (.file _ executable)) =>
    if Path.endsWithSlash path then .error .isDirectory
    else .ok (fs.set p (.file content executable))
  | .ok (.present _ .sink) => if Path.endsWithSlash path then .error .isDirectory else .ok fs
  | .ok (.vacant d name) =>
    if Path.endsWithSlash path then .error .isDirectory
    else .ok (fs.set (d ++ [name]) (.file content false))

/-- Makes one directory that is not there. -/
def makeDirectory (fs : FileSystem) (cwd : Place) (path : String) : Except Errno FileSystem :=
  match fs.resolve cwd path with
  | .error e => .error e
  | .ok (.present ..) => .error .alreadyExists
  | .ok (.vacant d name) => .ok (fs.set (d ++ [name]) .directory)

/-- Makes the directory that the first path names and, where they are missing, those around it,
which the other paths name from the inside out. What was made before an error stays. -/
def makeInside (fs : FileSystem) (cwd : Place) : List String → FileSystem × Option Errno
  | [] => (fs, none)
  | path :: around =>
    let settle (fs : FileSystem) (e : Errno) : FileSystem × Option Errno :=
      (fs, if e == .alreadyExists && fs.isDirectory cwd path then none else some e)
    if path.isEmpty then (fs, none)
    else
      match fs.makeDirectory cwd path with
      | .ok fs => (fs, none)
      | .error .noEntry =>
        match makeInside fs cwd around with
        | (fs, some e) => (fs, some e)
        | (fs, none) =>
          match fs.makeDirectory cwd path with
          | .ok fs => (fs, none)
          | .error e => settle fs e
      | .error e => settle fs e

/-- Makes a directory and the missing ones above it. -/
def makeDirectories (fs : FileSystem) (cwd : Place) (path : String) :
    FileSystem × Option Errno :=
  fs.makeInside cwd (path :: Path.around path)

end FileSystem

end HandlerHost.Host
