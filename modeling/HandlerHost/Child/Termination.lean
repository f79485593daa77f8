/-! How a process ends, and how watching it ends. -/
namespace HandlerHost.Child

/-- What the system tells of a process that has ended. -/
inductive Exit
  | code (n : Nat)
  | signal (n : Nat)
  | unknown
deriving DecidableEq, Inhabited

namespace Exit

def code? : Exit → Option Nat
  | code n => some n
  | _ => none

def signal? : Exit → Option Nat
  | signal n => some n
  | _ => none

end Exit

inductive Termination
  /-- The process ended and so did its output. -/
  | exited (e : Exit)
  /-- The deadline passed before the process had ended. -/
  | timedOut
  /-- The caller lost interest. -/
  | cancelled
  /-- The process ended, but its output was still held open at the deadline. -/
  | exitedPastDeadline (e : Exit)
deriving DecidableEq, Inhabited

namespace Termination

/-- The end of the process, if the run counts as completed. -/
def exit? : Termination → Option Exit
  | exited e => some e
  | exitedPastDeadline e => some e
  | _ => none

end Termination

end HandlerHost.Child
