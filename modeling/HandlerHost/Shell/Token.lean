import HandlerHost.Text.Natural

/-!
The tokens of a shell script: words made of quoted and unquoted pieces, operators and
redirections. The reader takes one character at a time.
-/
namespace HandlerHost.Shell

inductive Fragment
  | text (s : String)
  | parameter (name : String)
  /-- Stands for the text if the parameter is set. -/
  | ifSet (name text : String)
deriving DecidableEq

structure Piece where
  quoted : Bool
  fragment : Fragment
deriving DecidableEq

abbrev Word := List Piece

inductive Operator
  | semicolon
  | newline
  | background
  | and
  | or
deriving DecidableEq

/-- Where an output is sent: where another one goes, or nowhere. -/
inductive Target
  | output (n : Nat)
  | nowhere
deriving DecidableEq

inductive Token
  | word (line : Nat) (w : Word)
  | operator (line : Nat) (o : Operator)
  | redirect (source : Nat) (target : Target)
  /-- The script cannot be read further. -/
  | fault (line : Nat) (message : String)
deriving DecidableEq

inductive Mode
  | plain
  | escape
  | single
  | double
  | doubleEscape
  | dollar (quoted : Bool)
  /-- A parameter's name, the last character first. -/
  | name (quoted : Bool) (cs : List Char)
  | braced (quoted : Bool) (cs : List Char)
  | comment
  | ampersand
  | bar
  | angle (source : Nat)
  | target (source : Nat)
  /-- The name of a file, the last character first. -/
  | file (source : Nat) (cs : List Char)
  | stopped
deriving DecidableEq

/-- A reader of tokens. The characters of the current run, the pieces of the current word and the
tokens are kept with the last one first. -/
structure Lexer where
  mode : Mode
  run : List Char
  word : Option Word
  tokens : List Token
  line : Nat

def startsParameter (c : Char) : Bool :=
  ('a' ≤ c && c ≤ 'z') || ('A' ≤ c && c ≤ 'Z') || c == '_'

def continuesParameter (c : Char) : Bool := startsParameter c || Text.isDigit c

/-- The parameters with names of one character that is no letter. -/
def isSpecial (c : Char) : Bool := Text.isDigit c || "@*#?$!".toList.contains c

namespace Lexer

def start : Lexer := ⟨.plain, [], none, [], 1⟩

def turn (l : Lexer) (m : Mode) : Lexer := { l with mode := m }

def addPiece (l : Lexer) (quoted : Bool) (f : Fragment) : Lexer :=
  { l with word := some (⟨quoted, f⟩ :: l.word.getD []) }

/-- The current run becomes a piece of the word. -/
def endRun (l : Lexer) (quoted : Bool) : Lexer :=
  if l.run.isEmpty then l
  else { l.addPiece quoted (.text (String.ofList l.run.reverse)) with run := [] }

/-- A quotation belongs to a word even if it is empty. -/
def openWord (l : Lexer) : Lexer := { l with word := some (l.word.getD []) }

def addToken (l : Lexer) (t : Token) : Lexer := { l with tokens := t :: l.tokens }

def endWord (l : Lexer) : Lexer :=
  let l := l.endRun false
  match l.word with
  | none => l
  | some pieces => { l.addToken (.word l.line pieces.reverse) with word := none }

def addOperator (l : Lexer) (o : Operator) : Lexer :=
  let l := l.addToken (.operator l.line o)
  if o == .newline then { l with line := l.line + 1 } else l

def fail (l : Lexer) (message : String) : Lexer :=
  (l.addToken (.fault l.line message)).turn .stopped

def add (l : Lexer) (c : Char) : Lexer :=
  { l with run := c :: l.run, line := if c == '\n' then l.line + 1 else l.line }

/-- An output redirection may be preceded by the number of the output. -/
def redirection (l : Lexer) : Lexer :=
  match l.word, l.run with
  | none, ['2'] => { l with run := [] }.turn (.angle 2)
  | none, ['1'] => { l with run := [] }.turn (.angle 1)
  | _, _ => l.endWord.turn (.angle 1)

def unexpected (c : Char) : String := "\"" ++ String.ofList [c] ++ "\" unexpected"

/-- A character outside quotation. -/
def plain (l : Lexer) (c : Char) : Lexer :=
  let l := l.turn .plain
  match c with
  | ' ' => l.endWord
  | '\t' => l.endWord
  | '\n' => l.endWord.addOperator .newline
  | ';' => l.endWord.addOperator .semicolon
  | '&' => l.endWord.turn .ampersand
  | '|' => l.endWord.turn .bar
  | '>' => l.redirection
  | '\\' => l.turn .escape
  | '\'' => (l.endRun false).openWord.turn .single
  | '"' => (l.endRun false).openWord.turn .double
  | '$' => (l.endRun false).openWord.turn (.dollar false)
  | '#' => if l.word.isNone && l.run.isEmpty then l.turn .comment else l.add c
  | c => if "()<\x60".toList.contains c then l.fail (unexpected c) else l.add c

/-- A character between double quotes. -/
def double (l : Lexer) (c : Char) : Lexer :=
  match c with
  | '"' => (l.endRun true).turn .plain
  | '$' => (l.endRun true).turn (.dollar true)
  | '\\' => l.turn .doubleEscape
  | c => (l.add c).turn .double

/-- Reading goes on inside or outside the quotation. -/
def resume (l : Lexer) (quoted : Bool) (c : Char) : Lexer :=
  if quoted then l.double c else l.plain c

def backTo (l : Lexer) (quoted : Bool) : Lexer := l.turn (if quoted then .double else .plain)

/-- A dollar sign that begins no parameter stands for itself. -/
def addDollar (l : Lexer) (quoted : Bool) : Lexer := l.addPiece quoted (.text "$")

def addParameter (l : Lexer) (quoted : Bool) (cs : List Char) : Lexer :=
  l.addPiece quoted (.parameter (String.ofList cs.reverse))

def afterDollar (l : Lexer) (quoted : Bool) (c : Char) : Lexer :=
  if startsParameter c then l.turn (.name quoted [c])
  else if isSpecial c then (l.addParameter quoted [c]).backTo quoted
  else if c == '\x7b' then l.turn (.braced quoted [])
  else (l.addDollar quoted).resume quoted c

/-- The text between braces is a name, or a name, a plus sign and a text. -/
def addBraced (l : Lexer) (quoted : Bool) (cs : List Char) : Lexer :=
  let cs := cs.reverse
  let name := String.ofList (cs.takeWhile (· != '+'))
  match cs.dropWhile (· != '+') with
  | [] => l.addPiece quoted (.parameter name)
  | _ :: text => l.addPiece quoted (.ifSet name (String.ofList text))

/-- The file that discards what is written to it. -/
def nullFile : String := "/dev/null"

/-- Output is sent to no other file. -/
def endFile (l : Lexer) (source : Nat) (cs : List Char) : Lexer :=
  if String.ofList cs.reverse == nullFile then
    (l.addToken (.redirect source .nowhere)).turn .plain
  else l.fail (unexpected '>')

def push (l : Lexer) (c : Char) : Lexer :=
  match l.mode with
  | .plain => l.plain c
  | .escape => if c == '\n' then l.turn .plain else ((l.openWord.add c).endRun true).turn .plain
  | .single => if c == '\'' then (l.endRun true).turn .plain else l.add c
  | .double => l.double c
  | .doubleEscape =>
    if "$\x60\"\\".toList.contains c then (l.add c).turn .double
    else if c == '\n' then l.turn .double
    else ((l.add '\\').add c).turn .double
  | .dollar quoted => l.afterDollar quoted c
  | .name quoted cs =>
    if continuesParameter c then l.turn (.name quoted (c :: cs))
    else (l.addParameter quoted cs).resume quoted c
  | .braced quoted cs =>
    if c == '\x7d' then (l.addBraced quoted cs).backTo quoted
    else l.turn (.braced quoted (c :: cs))
  | .comment => if c == '\n' then l.plain c else l
  | .ampersand =>
    if c == '&' then (l.addOperator .and).turn .plain else (l.addOperator .background).plain c
  | .bar => if c == '|' then (l.addOperator .or).turn .plain else l.fail (unexpected '|')
  | .angle source =>
    if c == '&' then l.turn (.target source)
    else if c == ' ' then l
    else l.turn (.file source [c])
  | .target source =>
    match c with
    | '1' => (l.addToken (.redirect source (.output 1))).turn .plain
    | '2' => (l.addToken (.redirect source (.output 2))).turn .plain
    | _ => l.fail "Bad fd number"
  | .file source cs =>
    if " \t\n;&|>".toList.contains c then
      let l := l.endFile source cs
      if l.mode == .stopped then l else l.plain c
    else l.turn (.file source (c :: cs))
  | .stopped => l

def unterminated : String := "Unterminated quoted string"

/-- The end of the script. -/
def finish (l : Lexer) : List Token :=
  let l :=
    match l.mode with
    | .single => l.fail unterminated
    | .double => l.fail unterminated
    | .doubleEscape => l.fail unterminated
    | .dollar true => l.fail unterminated
    | .name true _ => l.fail unterminated
    | .braced .. => l.fail "Missing '\x7d'"
    | .escape => (l.add '\\').endWord
    | .dollar false => (l.addDollar false).endWord
    | .name false cs => (l.addParameter false cs).endWord
    | .ampersand => l.addOperator .background
    | .bar => l.fail (unexpected '|')
    | .angle _ => l.fail (unexpected '>')
    | .target _ => l.fail "Bad fd number"
    | .file source cs => l.endFile source cs
    | .plain => l.endWord
    | .comment => l
    | .stopped => l
  l.tokens.reverse

end Lexer

/-- The tokens of a script. -/
def tokens (script : String) : List Token := (script.toList.foldl Lexer.push .start).finish

end HandlerHost.Shell
