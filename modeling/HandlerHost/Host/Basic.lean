import HandlerHost.Host.FileSystem
import HandlerHost.Text.Dictionary

/-! The machine an invocation runs on: its files, the working directory and the environment. -/
namespace HandlerHost

structure Host where
  files : Host.FileSystem
  cwd : Host.Place
  env : Text.Dictionary String
deriving DecidableEq

namespace Host

def envValue? (h : Host) (name : String) : Option String := h.env.get? name

def isFile (h : Host) (path : String) : Bool := h.files.isFile h.cwd path

def read (h : Host) (path : String) : Except Errno String := h.files.read h.cwd path

/-- The directory for temporary files. -/
def temporaryDirectory (h : Host) : String := (h.envValue? "TMPDIR").getD "/tmp"

end Host

end HandlerHost
