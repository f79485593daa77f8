import HandlerHost.Config.Basic
import HandlerHost.Config.Example
import HandlerHost.Config.KeyPath
import HandlerHost.Host.Basic
import HandlerHost.Toml.Document

/-!
Where configurations come from: a text, a file, or layers. Of the layers the example is lowest,
then a file, then variables of the environment; what a lower layer says counts only where no higher
one speaks.
-/
namespace HandlerHost.Config

open Text (Entries)

/-- Settings by top level key. -/
abbrev Layer := List (String × Setting)

def ofLayers (layers : List Layer) : Except Error Config :=
  ofSettings (layers.foldl Setting.overlay .absent)

def readLayer (text : String) : Except Error Layer :=
  match Toml.read text with
  | some es => .ok es
  | none => .error .unreadable

/-- The configuration in a text. -/
def ofText (text : String) : Except Error Config := do ofLayers [← readLayer text]

/-- The extension of configuration files. -/
def usualExtension : String := "toml"

/-- What is put after a path that has an extension, so that the usual one is added to it and not
put in its place. -/
def mark : String := ".placeholder"

/-- A configuration file: the path itself, or else the path with the usual extension. -/
def findFile? (h : Host) (path : String) : Option String :=
  if h.isFile path then some path
  else
    let path := if (Host.Path.extension? path).isSome then path ++ mark else path
    (Host.Path.withExtension? path usualExtension).filter fun p => h.isFile p

def fileLayer (h : Host) (path : String) : Except Error Layer :=
  match findFile? h path with
  | none => .error .unreadable
  | some p =>
    match h.read p with
    | .error _ => .error .unreadable
    | .ok text =>
      readLayer (if text.startsWith "\ufeff" then String.ofList (text.toList.drop 1) else text)

/-- The configuration in a file. -/
def ofFile (h : Host) (path : String) : Except Error Config := do ofLayers [← fileLayer h path]

/-- What the names of variables begin with, in any case, before the key. -/
def variablePrefix : String := "FUNCBOX"

/-- The key that a variable sets. -/
def variableKey? (name : String) : Option String :=
  let start := (Text.lowerAscii variablePrefix ++ "_").toList
  let cs := (Text.lowerToAscii name).toList
  if start.isPrefixOf cs then some (String.ofList (cs.drop start.length)) else none

/-- An integer of 64 bits with an optional sign. -/
def signed? (s : String) : Option Int := do
  let (negative, ds) := Decimal.Extended.splitSign s.toList
  let n ← Text.digitsValue? ds
  let i : Int := if negative then -(n : Int) else n
  if Int64.minValue.toInt ≤ i && i ≤ Int64.maxValue.toInt then some i else none

/-- What a variable holds: a truth value, an integer, another number, or else a text. -/
def variableSetting (s : String) : Setting :=
  match Text.lowerAscii s with
  | "true" => .bool true
  | "false" => .bool false
  | _ =>
    match signed? s, Decimal.Extended.ofText? s with
    | some i, _ => .integer i
    | none, some x => .real x
    | none, none => .text s

def environmentLayer (h : Host) : Layer :=
  h.env.entries.filterMap fun (name, s) =>
    (variableKey? name).map fun k => (k, variableSetting s)

/-- The configuration of all layers. -/
def load (h : Host) (path : Option String) : Except Error Config := do
  let base ← readLayer exampleText
  let file ← match path with
    | none => pure []
    | some path => pure [← fileLayer h path]
  ofLayers ([base] ++ file ++ [environmentLayer h])

/-- The configuration of the example alone. -/
def default : Config := (ofText exampleText).toOption.getD empty

/-- The directory under which workspaces are made. -/
def resolvedRoot (c : Config) (h : Host) : String :=
  c.workspaceRoot.getD (Host.Path.join h.temporaryDirectory "funcbox")

end HandlerHost.Config
