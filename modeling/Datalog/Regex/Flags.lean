import Datalog.Text.Blank
import Datalog.Text.Scan

/-!
# Flags of a regular expression

Flags are set within an expression, and hold to the end of the group that they are set in. Three of
them decide which expressions can be read: whether letter case counts, whether a character is a code
point or a byte, and whether blanks and comments are passed over.
-/

namespace Datalog.Regex

/-- The flags that hold at a place of an expression. -/
structure Flags where
  ignoreCase : Bool := false
  unicode : Bool := true
  verbose : Bool := false
  deriving DecidableEq, Inhabited

namespace Flags

/-- The letters of flags, and the sign after which flags are cleared. -/
def letters : List Char := ['i', 'm', 's', 'U', 'u', 'R', 'x', '-']

/-- Whether characters are the letters of flags to set, or to clear after a minus sign. No letter
comes twice, and something has to follow the sign. -/
def areLetters (cs : List Char) : Bool :=
  cs.all letters.contains && decide cs.Nodup && cs.getLast? != some '-'

/-- The value of a flag after letters that may set or clear it. -/
def updated (letter : Char) (old : Bool) (cs : List Char) : Bool :=
  (old || (cs.takeWhile (· ≠ '-')).contains letter) && !(cs.dropWhile (· ≠ '-')).contains letter

/-- The flags after letters that set and clear some. -/
def update (f : Flags) (cs : List Char) : Flags where
  ignoreCase := updated 'i' f.ignoreCase cs
  unicode := updated 'u' f.unicode cs
  verbose := updated 'x' f.verbose cs

/-- Whether a character may stand for itself: in either letter case it may only where it is a byte. -/
def takesLiteral (f : Flags) : Bool := !(f.ignoreCase && f.unicode)

/-- A text without the blanks and comments at its start; a comment ends with its line. -/
def dropComments (inside : Bool) : List Char → List Char
  | [] => []
  | c :: cs =>
    if inside then dropComments (c ≠ '\n') cs
    else if Text.isBlankChar c then dropComments false cs
    else if c = '#' then dropComments true cs
    else c :: cs

/-- Passes over blanks and comments where the flags ask for it. -/
def skip (f : Flags) : Scan Unit := fun cs =>
  some ((), if f.verbose then dropComments false cs else cs)

/-- The next character that is no blank, past the mark of a comment if there is one. -/
def peekPast? (f : Flags) (cs : List Char) : Option Char :=
  if f.verbose then
    match cs.dropWhile Text.isBlankChar with
    | '#' :: cs => (cs.dropWhile Text.isBlankChar).head?
    | cs => cs.head?
  else cs.head?

end Flags

end Datalog.Regex
