import HandlerHost.Shell.Token

/-!
The commands of a shell script. Commands joined by `&&` and `||` form a list; lists are separated
by semicolons and newlines. A fault spoils the line it is on, and the script ends there.
-/
namespace HandlerHost.Shell

/-- A command with its words and redirections, and the line it stands on. -/
structure Simple where
  line : Nat
  words : List Word
  redirects : List (Nat × Target)
deriving DecidableEq

inductive Connector
  | and
  | or
deriving DecidableEq

/-- A command is run or skipped according to how the one before it ended. -/
structure CommandList where
  first : Simple
  rest : List (Connector × Simple)
  background : Bool
deriving DecidableEq

inductive Statement
  | list (l : CommandList)
  | fault (line : Nat) (message : String)
deriving DecidableEq

/-- A reader of commands. All lists but that of redirections have their last member first. -/
structure Parser where
  done : List Statement
  /-- The lists of the current line. -/
  pending : List Statement
  /-- The commands of the current list, each with the connector before it. -/
  commands : List (Option Connector × Simple)
  connector : Option Connector
  words : List Word
  redirects : List (Nat × Target)
  line : Nat
  stopped : Bool

namespace Parser

def start : Parser := ⟨[], [], [], none, [], [], 1, false⟩

def isEmpty (p : Parser) : Bool := p.words.isEmpty && p.redirects.isEmpty

def fail (p : Parser) (line : Nat) (message : String) : Parser :=
  { p with done := .fault line message :: p.done, pending := [], stopped := true }

/-- The current words become a command. -/
def endCommand (p : Parser) : Parser :=
  { p with
    commands := (p.connector, ⟨p.line, p.words.reverse, p.redirects⟩) :: p.commands
    connector := none
    words := []
    redirects := [] }

/-- The commands so far become a list. -/
def endList (p : Parser) (background : Bool) : Parser :=
  match p.commands.reverse with
  | [] => p
  | (_, first) :: rest =>
    let rest := rest.map fun (c, s) => (c.getD .and, s)
    { p with pending := .list ⟨first, rest, background⟩ :: p.pending, commands := [] }

def endLine (p : Parser) : Parser := { p with done := p.pending ++ p.done, pending := [] }

def operator (p : Parser) (line : Nat) (o : Operator) : Parser :=
  let join (c : Connector) : Parser := { p.endCommand with connector := some c }
  match o with
  | .newline =>
    if !p.isEmpty then (p.endCommand.endList false).endLine
    else if p.connector.isSome then p
    else p.endLine
  | .semicolon =>
    if p.isEmpty then p.fail line (Lexer.unexpected ';') else p.endCommand.endList false
  | .background =>
    if p.isEmpty then p.fail line (Lexer.unexpected '&') else p.endCommand.endList true
  | .and => if p.isEmpty then p.fail line "\"&&\" unexpected" else join .and
  | .or => if p.isEmpty then p.fail line "\"||\" unexpected" else join .or

def push (p : Parser) (t : Token) : Parser :=
  if p.stopped then p
  else
    match t with
    | .word line w =>
      { p with words := w :: p.words, line := if p.isEmpty then line else p.line }
    | .redirect source target => { p with redirects := p.redirects ++ [(source, target)] }
    | .operator line o => p.operator line o
    | .fault line message => p.fail line message

def finish (p : Parser) : List Statement :=
  let p :=
    if p.stopped then p
    else if !p.isEmpty then (p.endCommand.endList false).endLine
    else if p.connector.isSome then p.fail p.line "end of file unexpected"
    else p.endLine
  p.done.reverse

end Parser

/-- The statements of a script. -/
def statements (script : String) : List Statement :=
  ((tokens script).foldl Parser.push .start).finish

end HandlerHost.Shell
