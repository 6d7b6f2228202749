/-!
# Blank characters

The characters with the Unicode property White_Space.
-/

namespace Datalog.Text

/-- Whether a character is blank: the ASCII blanks and controls, the next-line and no-break
characters, and the blanks and separators of other scripts. -/
def isBlankChar (c : Char) : Bool :=
  let n := c.toNat
  (0x9 ≤ n && n ≤ 0xD) || n == 0x20 || n == 0x85 || n == 0xA0 || n == 0x1680
    || (0x2000 ≤ n && n ≤ 0x200A) || n == 0x2028 || n == 0x2029 || n == 0x202F || n == 0x205F
    || n == 0x3000

/-- Whether a text holds blank characters only. -/
def isBlank (s : String) : Bool := s.toList.all isBlankChar

/-- A text without the blank characters at both its ends. -/
def trim (cs : List Char) : List Char :=
  ((cs.dropWhile isBlankChar).reverse.dropWhile isBlankChar).reverse

end Datalog.Text
