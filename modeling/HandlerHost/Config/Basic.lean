import HandlerHost.Config.Setting
import HandlerHost.Isolation
import HandlerHost.Language

/-! Configurations, and when one is valid. -/
namespace HandlerHost

open Text (Dictionary Entries)
open Config (Setting)

structure Config where
  workspaceRoot : Option String
  defaultTimeoutMs : UInt64
  maxTimeoutMs : UInt64
  maxConcurrent : UInt64
  maxLogLines : UInt64
  isolation : Isolation
  /-- Commands that replace the usual interpreters, by the id of the language. -/
  interpreters : Dictionary (List String)
deriving DecidableEq

namespace Config

/-- What a configuration can be invalid for. -/
inductive Defect
  | zeroDefaultTimeout
  | zeroMaxTimeout
  | defaultAboveMax (default max : UInt64)
  | zeroConcurrency
  | unknownRuntime (id : String)
  | emptyCommand (id : String)
deriving DecidableEq

def Defect.text : Defect → String
  | zeroDefaultTimeout => "default_timeout_ms must be greater than zero"
  | zeroMaxTimeout => "max_timeout_ms must be greater than zero"
  | defaultAboveMax default max =>
    "default_timeout_ms (" ++ toString default ++ ") exceeds max_timeout_ms (" ++
      toString max ++ ")"
  | zeroConcurrency => "max_concurrent must be greater than zero"
  | unknownRuntime id => "unknown runtime '" ++ id ++ "' in interpreters"
  | emptyCommand id => "interpreter for '" ++ id ++ "' has empty command"

inductive Error
  /-- A source cannot be read, or a setting has no fitting type. -/
  | unreadable
  | invalid (d : Defect)
deriving DecidableEq

def Error.text : Error → String
  | unreadable => "failed to parse config"
  | invalid d => "invalid config: " ++ d.text

/-- The built-in values. -/
def empty : Config := ⟨none, 7000, 60000, 16, 1000, .process, .empty⟩

instance : Inhabited Config := ⟨empty⟩

/-- A command needs a program whose name is not blank. -/
def entryDefect? (id : String) (command : List String) : Option Defect :=
  if (Language.ofId? id).isNone then some (.unknownRuntime id)
  else if command.head?.all Text.blank then some (.emptyCommand id)
  else none

/-- The first defect of a configuration. -/
def defect? (c : Config) : Option Defect :=
  if c.defaultTimeoutMs == 0 then some .zeroDefaultTimeout
  else if c.maxTimeoutMs == 0 then some .zeroMaxTimeout
  else if c.maxTimeoutMs < c.defaultTimeoutMs then
    some (.defaultAboveMax c.defaultTimeoutMs c.maxTimeoutMs)
  else if c.maxConcurrent == 0 then some .zeroConcurrency
  else c.interpreters.entries.findSome? fun (id, command) => entryDefect? id command

/-- The deadline of a request: what it asks for, or the default, but at most the maximum. -/
def effectiveTimeout (c : Config) (requested : Option UInt64) : UInt64 :=
  min (requested.getD c.defaultTimeoutMs) c.maxTimeoutMs

/-- The command that replaces the interpreters of a language. -/
def commandFor (c : Config) (l : Language) : Option (List String) := c.interpreters.get? l.id

/-- A setting that keeps its built-in value when there is none. -/
def pick {α : Type} (read : Setting → Option α) (es : Entries Setting) (key : String)
    (builtIn : α) : Option α :=
  match es.find? key with
  | none => some builtIn
  | some s => read s

def rootOf? : Setting → Option (Option String)
  | .absent => some none
  | s => s.toText?.map some

/-- A policy is named by a text, or by the only key of a table. -/
def isolationOf? : Setting → Option Isolation
  | .text s => Isolation.ofName? s
  | .table [(k, _)] => Isolation.ofName? k
  | _ => none

/-- A command stands under its key in a table, or first in a list. -/
def commandOf? : Setting → Option (List String)
  | .table es => (Entries.find? "command" es).bind Setting.toTexts?
  | .list (s :: _) => s.toTexts?
  | _ => none

def interpretersOf? : Setting → Option (Dictionary (List String))
  | .table es =>
    (es.mapM fun ((id, s) : String × Setting) => (commandOf? s).map fun c => (id, c)).map
      Dictionary.ofList
  | _ => none

/-- The configuration that the settings say. Unknown keys do not matter. -/
def ofEntries? (es : Entries Setting) : Option Config := do
  return {
    workspaceRoot := ← pick rootOf? es "workspace_root" empty.workspaceRoot
    defaultTimeoutMs := ← pick Setting.toWord? es "default_timeout_ms" empty.defaultTimeoutMs
    maxTimeoutMs := ← pick Setting.toWord? es "max_timeout_ms" empty.maxTimeoutMs
    maxConcurrent := ← pick Setting.toWord? es "max_concurrent" empty.maxConcurrent
    maxLogLines := ← pick Setting.toWord? es "max_log_lines" empty.maxLogLines
    isolation := ← pick isolationOf? es "isolation" empty.isolation
    interpreters := ← pick interpretersOf? es "interpreters" empty.interpreters }

/-- The configuration that the settings say, if it is valid. -/
def ofSettings (s : Setting) : Except Error Config :=
  match ofEntries? s.entriesOf with
  | none => .error .unreadable
  | some c =>
    match c.defect? with
    | some d => .error (.invalid d)
    | none => .ok c

end Config

end HandlerHost
