/-! Why the operating system refuses an operation. -/
namespace HandlerHost.Host

inductive Errno
  | noEntry
  | badFormat
  | denied
  | alreadyExists
  | notDirectory
  | isDirectory
  | nameTooLong
  /-- A name or an argument with a NUL in it never reaches the operating system. -/
  | nulInName
  | nulInArgument
deriving DecidableEq, Inhabited

namespace Errno

/-- The text of the system with its number. -/
def text : Errno → String
  | noEntry => "No such file or directory (os error 2)"
  | badFormat => "Exec format error (os error 8)"
  | denied => "Permission denied (os error 13)"
  | alreadyExists => "File exists (os error 17)"
  | notDirectory => "Not a directory (os error 20)"
  | isDirectory => "Is a directory (os error 21)"
  | nameTooLong => "File name too long (os error 36)"
  | nulInName => "file name contained an unexpected NUL byte"
  | nulInArgument => "nul byte found in provided data"

end Errno

end HandlerHost.Host
