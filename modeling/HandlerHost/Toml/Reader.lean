import HandlerHost.Toml.Scalar
import HandlerHost.Json.Scan

/-!
Reading the parts of a TOML document: blanks, comments, strings, keys and values. Each reader
takes what is left of the text and gives what it read with the rest, or nothing at a fault.
-/
namespace HandlerHost.Toml

open Config (Setting)
open Text (Entries)

abbrev Scan (α : Type) := List Char → Option (α × List Char)

def isBlank (c : Char) : Bool := c == ' ' || c == '\t'

def skipBlank (cs : List Char) : List Char := cs.dropWhile isBlank

/-- Characters that may stand neither in comments nor in strings. -/
def isControl (c : Char) : Bool := (c.toNat < 0x20 && c != '\t') || c == '\x7f'

/-- The end of a line; a carriage return may precede the line feed. -/
def newline? : List Char → Option (List Char)
  | '\n' :: r => some r
  | '\r' :: '\n' :: r => some r
  | _ => none

/-- A comment, if one stands here. -/
def skipComment : List Char → List Char
  | '#' :: r => r.dropWhile fun c => !isControl c
  | cs => cs

/-- Passes over blanks and a comment; then a line or the text must end. -/
def endLine? (cs : List Char) : Option (List Char) :=
  match skipComment (skipBlank cs) with
  | [] => some []
  | r => newline? r

/-- Passes over blanks, comments and line ends. -/
def skipLines : Nat → List Char → List Char
  | 0, cs => cs
  | fuel + 1, cs =>
    let r := skipComment (skipBlank cs)
    match newline? r with
    | some r => skipLines fuel r
    | none => r

/-- A number of hexadecimal digits as a character. -/
def codePoint? (cs : List Char) : Option Char := do
  let ds ← cs.mapM Json.hexValue?
  let n := ds.foldl (fun n d => n * 16 + d) 0
  if h : n.isValidChar then some (Char.ofNatAux n h) else none

/-- The character after a backslash. -/
def escape? : Scan Char
  | 'b' :: r => some ('\x08', r)
  | 't' :: r => some ('\t', r)
  | 'n' :: r => some ('\n', r)
  | 'f' :: r => some ('\x0c', r)
  | 'r' :: r => some ('\r', r)
  | 'e' :: r => some ('\x1b', r)
  | '"' :: r => some ('"', r)
  | '\\' :: r => some ('\\', r)
  | 'x' :: r => if r.length < 2 then none else (codePoint? (r.take 2)).map (·, r.drop 2)
  | 'u' :: r => if r.length < 4 then none else (codePoint? (r.take 4)).map (·, r.drop 4)
  | 'U' :: r => if r.length < 8 then none else (codePoint? (r.take 8)).map (·, r.drop 8)
  | _ => none

/-- The rest of a basic string on one line. -/
def basic? : Nat → List Char → Scan String
  | 0, _, _ => none
  | _ + 1, _, [] => none
  | _ + 1, acc, '"' :: r => some (String.ofList acc.reverse, r)
  | fuel + 1, acc, '\\' :: r => (escape? r).bind fun (c, r) => basic? fuel (c :: acc) r
  | fuel + 1, acc, c :: r => if isControl c then none else basic? fuel (c :: acc) r

/-- The rest of a literal string on one line. -/
def literal? (acc : List Char) : Scan String
  | [] => none
  | '\'' :: r => some (String.ofList acc.reverse, r)
  | c :: r => if isControl c then none else literal? (c :: acc) r

/-- The quotes at the end of a string of several lines: three close it, and up to two more before
them belong to it. -/
def closing? (quote : Char) (cs : List Char) : Option (Nat × List Char) :=
  let n := min 5 (cs.takeWhile (· == quote)).length
  if n < 3 then none else some (n - 3, cs.drop n)

/-- Passes over blanks and line ends. -/
def skipBreaks : List Char → List Char
  | '\r' :: '\n' :: r => skipBreaks r
  | c :: r => if isBlank c || c == '\n' then skipBreaks r else c :: r
  | [] => []

/-- Passes over a line end that a backslash hides, with all blanks and line ends after it. -/
def hiddenBreak? (cs : List Char) : Option (List Char) :=
  (newline? (skipBlank cs)).map skipBreaks

/-- A character of a string of several lines, the last one first. A carriage return needs its line
feed. -/
def lineChar? (acc : List Char) : Scan (List Char)
  | '\n' :: r => some ('\n' :: acc, r)
  | '\r' :: '\n' :: r => some ('\n' :: '\r' :: acc, r)
  | c :: r => if isControl c then none else some (c :: acc, r)
  | [] => none

/-- The rest of a basic string of several lines. -/
def basicLines? : Nat → List Char → Scan String
  | 0, _, _ => none
  | _ + 1, _, [] => none
  | fuel + 1, acc, '"' :: r =>
    match closing? '"' ('"' :: r) with
    | some (n, rest) => some (String.ofList (List.replicate n '"' ++ acc).reverse, rest)
    | none => basicLines? fuel ('"' :: acc) r
  | fuel + 1, acc, '\\' :: r =>
    match hiddenBreak? r with
    | some r => basicLines? fuel acc r
    | none => (escape? r).bind fun (c, r) => basicLines? fuel (c :: acc) r
  | fuel + 1, acc, c :: r => (lineChar? acc (c :: r)).bind fun (acc, r) => basicLines? fuel acc r

/-- The rest of a literal string of several lines. -/
def literalLines? : Nat → List Char → Scan String
  | 0, _, _ => none
  | _ + 1, _, [] => none
  | fuel + 1, acc, '\'' :: r =>
    match closing? '\'' ('\'' :: r) with
    | some (n, rest) => some (String.ofList (List.replicate n '\'' ++ acc).reverse, rest)
    | none => literalLines? fuel ('\'' :: acc) r
  | fuel + 1, acc, c :: r => (lineChar? acc (c :: r)).bind fun (acc, r) => literalLines? fuel acc r

/-- The line end just after an opening triple quote is no part of the string. -/
def dropFirstNewline (cs : List Char) : List Char := (newline? cs).getD cs

/-- A string of any of the four kinds. -/
def string? : Scan String
  | '"' :: '"' :: '"' :: r => basicLines? (r.length + 1) [] (dropFirstNewline r)
  | '\'' :: '\'' :: '\'' :: r => literalLines? (r.length + 1) [] (dropFirstNewline r)
  | '"' :: r => basic? (r.length + 1) [] r
  | '\'' :: r => literal? [] r
  | _ => none

def isBareKey (c : Char) : Bool :=
  ('a' ≤ c && c ≤ 'z') || ('A' ≤ c && c ≤ 'Z') || Text.isDigit c || c == '_' || c == '-'

/-- One key: bare, or a string of one line. -/
def simpleKey? : Scan String
  | '"' :: r => basic? (r.length + 1) [] r
  | '\'' :: r => literal? [] r
  | cs =>
    let k := cs.takeWhile isBareKey
    if k.isEmpty then none else some (String.ofList k, cs.dropWhile isBareKey)

/-- Keys with points between them; blanks may stand around each. -/
def keys? : Nat → List Char → Option (List String × List Char)
  | 0, _ => none
  | fuel + 1, cs => do
    let (k, r) ← simpleKey? (skipBlank cs)
    match skipBlank r with
    | '.' :: r => (keys? fuel r).map fun (ks, r) => (k :: ks, r)
    | r => some ([k], r)

/-- How deep arrays and tables may be nested, and how many keys may stand in a row. -/
def maxDepth : Nat := 80

/-- A key, perhaps dotted, that is not too long. -/
def key? (cs : List Char) : Option (List String × List Char) :=
  (keys? cs.length cs).filter fun p => p.1.length ≤ maxDepth

/-- How a table of the document came to be. -/
inductive Origin
  /-- It was named on the way to another table by a header. -/
  | implied
  | header
  | dotted
deriving DecidableEq

/-- A document under construction, which remembers what may still be added where. -/
inductive Draft
  | value (s : Setting)
  | table (origin : Origin) (entries : List (String × Draft))
  /-- An array of tables: those that are finished and the last one, which may still grow. -/
  | tables (earlier : List Setting) (last : List (String × Draft))

namespace Draft

mutual

def settle : Draft → Setting
  | value s => s
  | table _ es => .table (settleAll es)
  | tables earlier last => .list (earlier ++ [.table (settleAll last)])

def settleAll : List (String × Draft) → List (String × Setting)
  | [] => []
  | (k, d) :: es => (k, d.settle) :: settleAll es

end

/-- Changes what stands at the end of a path. Headers enter any table and the last one of an array
of tables. Dotted keys do not enter a table that a header made, and they add to one that has not
come from a header only; such a table then counts as made by dotted keys. -/
def alter (dotted : Bool) (change : Option Draft → Option Draft) :
    List String → Entries Draft → Option (Entries Draft)
  | [], _ => none
  | [k], es => (change (es.find? k)).map fun d => es.insert k d
  | k :: path, es =>
    let adds := dotted && path.length == 1
    match es.find? k with
    | none =>
      let origin : Origin := if dotted then .dotted else .implied
      (alter dotted change path []).map fun sub => es.insert k (.table origin sub)
    | some (.table origin sub) =>
      if dotted && origin == .header then none
      else
        let origin : Origin := if adds then .dotted else origin
        (alter dotted change path sub).map fun sub => es.insert k (.table origin sub)
    | some (.tables earlier last) =>
      if adds then none
      else (alter dotted change path last).map fun last => es.insert k (.tables earlier last)
    | some (.value _) => none

/-- Adds a value under dotted keys; the place must be free. -/
def add (path : List String) (s : Setting) (es : Entries Draft) : Option (Entries Draft) :=
  alter true (fun old => if old.isNone then some (.value s) else none) path es

end Draft

def isScalarChar (c : Char) : Bool :=
  isBareKey c || c == '+' || c == '.' || c == ':'

/-- The characters of a scalar without quotes. One blank may stand between a date and a time. -/
def scalarChars (cs : List Char) : List Char × List Char :=
  let token := cs.takeWhile isScalarChar
  match cs.dropWhile isScalarChar with
  | ' ' :: d :: r =>
    if Text.isDigit d && (date? token).any (fun p => p.2.isEmpty) then
      (token ++ ' ' :: (d :: r).takeWhile isScalarChar, (d :: r).dropWhile isScalarChar)
    else (token, ' ' :: d :: r)
  | r => (token, r)

mutual

/-- A value. Arrays and tables may be nested only so many levels deep. -/
def value? : Nat → Nat → List Char → Option (Setting × List Char)
  | 0, _, _ => none
  | _ + 1, _, [] => none
  | _ + 1, 0, '[' :: _ => none
  | _ + 1, 0, '\x7b' :: _ => none
  | fuel + 1, depth + 1, '[' :: r => (items? fuel depth [] r).map fun (vs, r) => (.list vs, r)
  | fuel + 1, depth + 1, '\x7b' :: r =>
    (members? fuel depth [] r).map fun (es, r) => (.table (Draft.settleAll es), r)
  | _ + 1, _, c :: r =>
    if c == '"' || c == '\'' then (string? (c :: r)).map fun (s, r) => (.text s, r)
    else
      let (token, rest) := scalarChars (c :: r)
      (scalar? token).map (·, rest)

/-- The items of an array, over several lines and with a comma after the last one if one likes. -/
def items? : Nat → Nat → List Setting → List Char → Option (List Setting × List Char)
  | 0, _, _, _ => none
  | fuel + 1, depth, acc, cs =>
    match skipLines cs.length cs with
    | ']' :: r => some (acc.reverse, r)
    | r =>
      match value? fuel depth r with
      | none => none
      | some (v, r) =>
        match skipLines r.length r with
        | ',' :: r => items? fuel depth (v :: acc) r
        | ']' :: r => some ((v :: acc).reverse, r)
        | _ => none

/-- The members of a table between braces, written as freely as the items of an array. -/
def members? : Nat → Nat → Entries Draft → List Char → Option (Entries Draft × List Char)
  | 0, _, _, _ => none
  | fuel + 1, depth, acc, cs =>
    match skipLines cs.length cs with
    | '\x7d' :: r => some (acc, r)
    | r =>
      match (key? r).map fun (ks, r) => (ks, skipLines r.length r) with
      | some (ks, '=' :: r) =>
        match value? fuel depth (skipLines r.length r) with
        | none => none
        | some (v, r) =>
          match Draft.add ks v acc with
          | none => none
          | some acc =>
            match skipLines r.length r with
            | ',' :: r => members? fuel depth acc r
            | '\x7d' :: r => some (acc, r)
            | _ => none
      | _ => none

end

end HandlerHost.Toml
