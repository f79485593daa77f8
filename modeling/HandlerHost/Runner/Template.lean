import HandlerHost.Json.Writer
import HandlerHost.Output.Sentinel

/-!
Script templates. A template is cut into characters and holes in one pass; a hole is filled with a
string literal, and what has been filled in is never looked at again.
-/
namespace HandlerHost.Runner

/-- The file an invocation's event is read from. -/
def eventFile : String := "event.json"

/-- The places of a template that are filled in. -/
inductive Hole
  | handlerName
  | sourceFile
  | eventFile
  | resultStart
  | resultEnd
deriving DecidableEq

namespace Hole

def all : List Hole := [handlerName, sourceFile, eventFile, resultStart, resultEnd]

def name : Hole → String
  | handlerName => "handler_name"
  | sourceFile => "source_file"
  | eventFile => "event_file"
  | resultStart => "result_start"
  | resultEnd => "result_end"

/-- How a template marks a hole: its name in braces. -/
def mark (h : Hole) : List Char := '\x7b' :: h.name.toList ++ ['\x7d']

/-- What a hole is filled with. -/
def value (handler source : String) : Hole → String
  | handlerName => handler
  | sourceFile => source
  | eventFile => Runner.eventFile
  | resultStart => Output.resultStart
  | resultEnd => Output.resultEnd

/-- The hole that a text begins with. -/
def at? (cs : List Char) : Option Hole := all.find? fun h => h.mark.isPrefixOf cs

end Hole

inductive Piece
  | char (c : Char)
  | hole (h : Hole)
deriving DecidableEq

namespace Template

/-- The pieces of a text whose first `skip` characters belong to a mark already read. -/
def pieces : Nat → List Char → List Piece
  | _, [] => []
  | skip + 1, _ :: cs => pieces skip cs
  | 0, c :: cs =>
    match Hole.at? (c :: cs) with
    | some h => .hole h :: pieces (h.mark.length - 1) cs
    | none => .char c :: pieces 0 cs

/-- A character stands for itself and a hole for the string literal of its value. -/
def fill (handler source : String) : Piece → List Char
  | .char c => [c]
  | .hole h => (Json.literal (h.value handler source)).toList

def render (template handler source : String) : String :=
  String.ofList ((pieces 0 template.toList).flatMap (fill handler source))

end Template

end HandlerHost.Runner
