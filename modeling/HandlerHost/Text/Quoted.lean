import HandlerHost.Text.Hidden

/-! Texts quoted for a message: what cannot be seen is written by name or number. -/
namespace HandlerHost.Text

/-- Hexadecimal digits in lower case. -/
def hex (n : Nat) : List Char := Nat.toDigits 16 n

def quoteChar (c : Char) : List Char :=
  match c with
  | '\x00' => ['\\', '0']
  | '\t' => ['\\', 't']
  | '\r' => ['\\', 'r']
  | '\n' => ['\\', 'n']
  | '"' => ['\\', '"']
  | '\\' => ['\\', '\\']
  | c => if isHidden c then '\\' :: 'u' :: '\x7b' :: hex c.toNat ++ ['\x7d'] else [c]

/-- The text between quotes. -/
def quoted (s : String) : String :=
  String.ofList ('"' :: s.toList.flatMap quoteChar ++ ['"'])

end HandlerHost.Text
