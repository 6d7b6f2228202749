import Datalog.Regex.Flags
import Datalog.Text.Hexadecimal

/-!
# Characters and escapes of a regular expression

The smallest parts of an expression: a character that stands for itself, plain or escaped; a class of
characters, such as the digits; and an assertion about a place. Classes and word boundaries are known
within ASCII only, so they can be used only where a character is a byte, and a class cannot be
negated there since its complement would hold bytes that are no characters.
-/

namespace Datalog.Regex

/-- A smallest part of an expression. -/
inductive Atom where
  | literal (c : Char)
  | characters
  | assertion
  deriving DecidableEq

/-- Whether a character stands for itself after a backslash: all of ASCII but letters, digits and the
angle brackets, which mark the ends of words. -/
def isEscapable (c : Char) : Bool :=
  c.toNat < 0x80 && !c.isAlphanum && c ≠ '<' && c ≠ '>'

/-- The control character that a letter after a backslash stands for. -/
def control? : Char → Option Char
  | 'a' => some '\x07'
  | 'f' => some '\x0c'
  | 't' => some '\t'
  | 'n' => some '\n'
  | 'r' => some '\r'
  | 'v' => some '\x0b'
  | _ => none

namespace Flags

/-- A character that stands for itself. -/
def literal (f : Flags) (c : Char) : Scan Atom := do
  guard f.takesLiteral
  return .literal c

/-- A number of hexadecimal digits, after the digits of `high`. -/
def hexNumber (f : Flags) (high : Nat) : Nat → Scan Nat
  | 0 => return high
  | k + 1 => do
    f.skip
    let d ← Scan.ofOption (Text.hexValue? (← Scan.next))
    f.hexNumber (16 * high + d) k

/-- The character whose code point a number of hexadecimal digits give. -/
def codePoint (f : Flags) (digits : Nat) : Scan Atom := do
  let v ← f.hexNumber 0 digits
  guard v.isValidChar
  f.literal (Char.ofNat v)

/-- The byte that two hexadecimal digits give, which has to be a character. -/
def byte (f : Flags) : Scan Atom := do
  let v ← f.hexNumber 0 2
  guard (f.unicode || v < 0x80)
  f.literal (Char.ofNat v)

/-- What an escape stands for, after its backslash. Classes and word boundaries need characters that are
bytes. -/
def escape (f : Flags) : Scan Atom := do
  match ← Scan.next with
  | 'x' => f.byte
  | 'u' => f.codePoint 4
  | 'U' => f.codePoint 8
  | 'd' | 's' | 'w' => do
    guard !f.unicode
    return .characters
  | 'b' | 'B' | '<' | '>' => do
    guard !f.unicode
    return .assertion
  | 'A' | 'z' => return .assertion
  | c => if isEscapable c then f.literal c else do f.literal (← Scan.ofOption (control? c))

/-- A part that is no group, class or repetition. A dot stands for any character, so it needs characters
that are no bytes. -/
def atom (f : Flags) : Scan Atom := do
  match ← Scan.next with
  | '\\' => f.escape
  | '.' => do
    guard f.unicode
    return .characters
  | '^' | '$' => return .assertion
  | c => f.literal c

end Flags

end Datalog.Regex
