/-!
Path texts. A path is absolute when it begins with a slash; otherwise it starts at some directory.
-/
namespace HandlerHost.Host

namespace Path

def isAbsolute (path : String) : Bool := path.startsWith "/"

def hasSlash (path : String) : Bool := path.toList.contains '/'

/-- A name below a directory. A slash is put between them unless the directory is empty or ends
with one; an absolute name stands for itself. -/
def join (dir name : String) : String :=
  if isAbsolute name then name
  else if dir.isEmpty || dir.endsWith "/" then dir ++ name
  else dir ++ "/" ++ name

/-- The parts between slashes, without empty ones. -/
def parts (path : String) : List String :=
  ((path.toList.splitOn '/').map String.ofList).filter fun p => !p.isEmpty

/-- The parts that lead somewhere. A point stands for where one is already; it is kept only at the
start of a path that is not absolute. -/
def components (path : String) : List String :=
  match parts path with
  | "." :: ps => (if isAbsolute path then [] else ["."]) ++ ps.filter (· != ".")
  | ps => ps.filter (· != ".")

/-- A path of parts. -/
def ofParts (absolute : Bool) (ps : List String) : String :=
  (if absolute then "/" else "") ++ String.intercalate "/" ps

/-- The paths to the directories around what a path names, inner ones before outer ones. -/
def around (path : String) : List String :=
  let cs := components path
  (List.range cs.length).reverse.map fun n => ofParts (isAbsolute path) (cs.take n)

/-- The name of what a path leads to, unless it only leads about. -/
def fileName? (path : String) : Option String :=
  (components path).getLast?.filter fun name => name != "." && name != ".."

/-- A name up to its last point, and its extension after that. A point at the start begins no
extension. -/
def splitName (name : String) : String × Option String :=
  let cs := name.toList.reverse
  match cs.dropWhile (· != '.') with
  | _ :: c :: stem =>
    (String.ofList (c :: stem).reverse, some (String.ofList (cs.takeWhile (· != '.')).reverse))
  | _ => (name, none)

def extension? (path : String) : Option String := (fileName? path).bind fun n => (splitName n).2

/-- A path whose name has another extension. -/
def withExtension? (path extension : String) : Option String :=
  (fileName? path).map fun name =>
    ofParts (isAbsolute path)
      ((components path).dropLast ++ [(splitName name).1 ++ "." ++ extension])

/-- A path that can only name a directory. -/
def endsWithSlash (path : String) : Bool := path.endsWith "/"

end Path

end HandlerHost.Host
