import HandlerHost.Toml.Reader

/-!
Reading a TOML document. It is built section by section: the open section is kept apart and put in
its place when the next header, or the end, is met.
-/
namespace HandlerHost.Toml

open Config (Setting)
open Text (Entries)

/-- The document so far and its open section. An empty path is the top of the document. -/
structure Sections where
  root : Entries Draft
  path : List String
  /-- The section is an item of an array of tables. -/
  item : Bool
  current : Entries Draft

namespace Sections

def start : Sections := ⟨[], [], false, []⟩

/-- Puts the open section in its place. -/
def close (s : Sections) : Option (Entries Draft) :=
  if s.path.isEmpty then some s.current
  else if s.item then
    Draft.alter false (fun old =>
      match old with
      | none => some (.tables [] s.current)
      | some (.tables earlier last) =>
        some (.tables (earlier ++ [.table (Draft.settleAll last)]) s.current)
      | some _ => none) s.path s.root
  else Draft.alter false (fun _ => some (.table .header s.current)) s.path s.root

/-- What stands at a path that leads through tables. -/
def find? : List String → Entries Draft → Option Draft
  | [], _ => none
  | [k], es => es.find? k
  | k :: path, es =>
    match es.find? k with
    | some (.table _ sub) => find? path sub
    | some (.tables _ last) => find? path last
    | _ => none

/-- Opens the section of a table. It must be new, or only implied by others. -/
def openTable (s : Sections) (path : List String) : Option Sections := do
  let root ← s.close
  match find? path root with
  | none => some ⟨root, path, false, []⟩
  | some (.table .implied es) => some ⟨root, path, false, es⟩
  | some _ => none

/-- Opens a section as the next item of an array of tables. -/
def openItem (s : Sections) (path : List String) : Option Sections := do
  let root ← s.close
  match find? path root with
  | none => some ⟨root, path, true, []⟩
  | some (.tables ..) => some ⟨root, path, true, []⟩
  | some _ => none

end Sections

/-- The keys of a header and what follows its brackets. -/
def header? (close : List Char) (cs : List Char) : Option (List String × List Char) := do
  let (ks, r) ← key? cs
  if close.isPrefixOf r then some (ks, r.drop close.length) else none

/-- One line of the document, or more where a value spans them. -/
def line? (s : Sections) (cs : List Char) : Option (Sections × List Char) :=
  match cs with
  | '[' :: '[' :: r => do
    let (ks, r) ← header? [']', ']'] r
    return (← s.openItem ks, ← endLine? r)
  | '[' :: r => do
    let (ks, r) ← header? [']'] r
    return (← s.openTable ks, ← endLine? r)
  | cs =>
    match key? cs with
    | some (ks, '=' :: r) => do
      let (v, r) ← value? (2 * r.length) maxDepth (skipBlank r)
      let current ← Draft.add ks v s.current
      return ({ s with current }, ← endLine? r)
    | _ => none

def lines? : Nat → Sections → List Char → Option Sections
  | 0, s, cs => if cs.isEmpty then some s else none
  | fuel + 1, s, cs =>
    match skipLines cs.length cs with
    | [] => some s
    | r =>
      match line? s r with
      | none => none
      | some (s, r) => lines? fuel s r

/-- The entries of a document, or nothing when it is malformed. One byte order mark may stand at
its start. -/
def read (text : String) : Option (List (String × Setting)) := do
  let cs :=
    match text.toList with
    | '\ufeff' :: cs => cs
    | cs => cs
  let s ← lines? (cs.length + 1) .start cs
  let root ← s.close
  return Draft.settleAll root

end HandlerHost.Toml
