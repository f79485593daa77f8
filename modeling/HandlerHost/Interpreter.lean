import HandlerHost.Host.Basic
import HandlerHost.Language

/-!
Choosing the program that runs a handler. A configured command is taken as it is; otherwise the
interpreters of the language are tried in their order. Directories of the search path are tried in
theirs.
-/
namespace HandlerHost

structure Interpreter where
  program : String
  args : List String
deriving DecidableEq

namespace Interpreter

inductive Error
  | notFound (l : Language) (tried : List String)
  | commandNotFound (program : String)
  | emptyCommand
deriving DecidableEq

def Error.text : Error → String
  | notFound l tried =>
    "no interpreter found for runtime " ++ l.id ++ " (tried: " ++ String.intercalate ", " tried ++
      ")"
  | commandNotFound program => "interpreter '" ++ program ++ "' not found"
  | emptyCommand => "interpreter command is empty"

/-- The directories of the search path. An empty one is the working directory. -/
def searchPath (h : Host) : List String :=
  match h.envValue? "PATH" with
  | none => []
  | some dirs => (dirs.toList.splitOn ':').map String.ofList

/-- The file of a program. A name with a slash is a path; any other is searched for. -/
def locate (h : Host) (program : String) : Option String :=
  if Host.Path.hasSlash program then
    if h.isFile program then some program else none
  else ((searchPath h).map fun dir => Host.Path.join dir program).find? fun p => h.isFile p

/-- The interpreter of an explicit command. -/
def ofWords (h : Host) : List String → Except Error Interpreter
  | [] => .error .emptyCommand
  | program :: args =>
    match locate h program with
    | some p => .ok ⟨p, args⟩
    | none => .error (.commandNotFound program)

def ofCommand? (h : Host) (c : Command) : Option Interpreter :=
  (locate h c.program).map fun p => ⟨p, c.args⟩

/-- The interpreter of a language, or of the command that replaces it. -/
def resolve (h : Host) (l : Language) (command : Option (List String)) :
    Except Error Interpreter :=
  match command with
  | some words => ofWords h words
  | none =>
    match l.interpreters.findSome? (ofCommand? h) with
    | some i => .ok i
    | none => .error (.notFound l (l.interpreters.map Command.program))

end Interpreter

end HandlerHost
