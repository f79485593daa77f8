import HandlerHost.Json.Decoder

/-! How strongly a handler is separated from the host's environment. -/
namespace HandlerHost

inductive Isolation
  | process
  | scrubbedEnv
deriving DecidableEq, Inhabited

namespace Isolation

def all : List Isolation := [process, scrubbedEnv]

/-- The name on the wire and in configurations. -/
def name : Isolation → String
  | process => "process"
  | scrubbedEnv => "scrubbed-env"

/-- The name shown to a reader of the effective configuration. -/
def display : Isolation → String
  | process => "Process"
  | scrubbedEnv => "ScrubbedEnv"

def known : List (String × Isolation) := all.map fun i => (i.name, i)

def ofName? (s : String) : Option Isolation := known.lookup s

/-- The refusal of an unknown name. -/
def unknownText (s : String) : String :=
  (Json.Reason.unknownVariant s (known.map Prod.fst)).text

def decoder : Json.Decoder Isolation := .variant known

end Isolation

end HandlerHost
