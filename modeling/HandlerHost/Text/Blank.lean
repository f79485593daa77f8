/-! White space, the characters with the Unicode property of that name, and trimming. -/
namespace HandlerHost.Text

/-- The Unicode property White_Space. -/
def isBlank (c : Char) : Bool :=
  let n := c.toNat
  (9 ≤ n && n ≤ 13) || n == 0x20 || n == 0x85 || n == 0xA0 || n == 0x1680 ||
    (0x2000 ≤ n && n ≤ 0x200A) || n == 0x2028 || n == 0x2029 || n == 0x202F ||
    n == 0x205F || n == 0x3000

/-- White space removed at both ends. -/
def trimChars (cs : List Char) : List Char :=
  ((cs.dropWhile isBlank).reverse.dropWhile isBlank).reverse

def trim (s : String) : String := String.ofList (trimChars s.toList)

/-- A text with nothing but white space in it. -/
def blank (s : String) : Bool := s.toList.all isBlank

/-- Upper case letters of ASCII made lower case; every other character is kept. -/
def lowerAscii (s : String) : String := s.map Char.toLower

/-- The lower case of every letter for which it is a letter of ASCII: A to Z and the Kelvin sign. -/
def lowerToAscii (s : String) : String := (s.map fun c => if c == '\u212a' then 'k' else c.toLower)

end HandlerHost.Text
