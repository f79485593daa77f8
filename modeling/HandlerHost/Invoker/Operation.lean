import HandlerHost.Workspace

/-!
File operations of invocations. An operation that has been started is carried out whether or not
somebody still waits for it.
-/
namespace HandlerHost.Invoker

open Host (Errno)

inductive Operation
  | makeRoot (root : String)
  | makeDirectory (root : String) (id : WorkspaceId)
  | write (w : Workspace) (name content : String)
  | remove (w : Workspace)
deriving DecidableEq

namespace Operation

abbrev Outcome := Except Workspace.Error Unit

/-- The failure of an operation for a reason that lies outside the files. -/
def fail (e : Errno) : Operation → Workspace.Error
  | makeRoot root => .createRoot root e
  | makeDirectory root id => .createDirectory (Workspace.under root id).path e
  | write w name _ => .write (Host.Path.join w.path name) e
  | remove w => .write w.path e

/-- Carries an operation out. -/
def perform (h : Host) : Operation → Host × Outcome
  | makeRoot root => Workspace.createRoot h root
  | makeDirectory root id =>
    match Workspace.createDirectory h root id with
    | (h, r) => (h, r.map fun _ => ())
  | write w name content => w.writeFile h name content
  | remove w => (w.remove h, .ok ())

/-- Carries an operation out, or fails for a reason from outside. A removal always succeeds. -/
def attempt (o : Operation) (h : Host) (fault : Option Errno) : Host × Outcome :=
  match fault, o with
  | some _, remove w => (w.remove h, .ok ())
  | some e, o => (h, .error (o.fail e))
  | none, o => o.perform h

/-- How many names are looked up in a millisecond. -/
def namesPerMs : Nat := 50000

/-- How long an operation takes, in milliseconds. For a root the path to each directory on the way
is looked up from its beginning; all else is done at once. -/
def lasts : Operation → Nat
  | makeRoot root =>
    let names := (Host.Path.parts root).length
    names * names / namesPerMs
  | _ => 0

end Operation

end HandlerHost.Invoker
