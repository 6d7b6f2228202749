import Datalog.Json
import Datalog.Text.Hexadecimal

/-!
# JSON tokens

The lexemes of a document: punctuation, words, numerals and strings. `Token.scan` cuts a text into
tokens, reading it once from left to right; `Token.spell` writes a token. Strings are written with
the fewest escapes: only the quote, the backslash and the characters below U+0020 are escaped.
-/

namespace Datalog.Json

/-- A lexeme of a document. -/
inductive Token where
  | openArr
  | closeArr
  | openObj
  | closeObj
  | comma
  | colon
  | null
  | bool (b : Bool)
  | num (numeral : List Char)
  | str (s : String)
  | garbled
  deriving DecidableEq, Inhabited

/-- One of the lower-case hexadecimal digits. -/
def hexDigit (n : Nat) : Char := Nat.digitChar n

/-- How a character is written inside a string. -/
def escape (c : Char) : List Char :=
  if c = '"' then ['\\', '"']
  else if c = '\\' then ['\\', '\\']
  else if c = '\n' then ['\\', 'n']
  else if c = '\r' then ['\\', 'r']
  else if c = '\t' then ['\\', 't']
  else if c = '\x08' then ['\\', 'b']
  else if c = '\x0c' then ['\\', 'f']
  else if c.toNat < 0x20 then
    ['\\', 'u', '0', '0', hexDigit (c.toNat / 16), hexDigit (c.toNat % 16)]
  else [c]

namespace Token

/-- The characters of a token. -/
def spell : Token → List Char
  | .openArr => ['[']
  | .closeArr => [']']
  | .openObj => ['\x7b']
  | .closeObj => ['\x7d']
  | .comma => [',']
  | .colon => [':']
  | .null => "null".toList
  | .bool true => "true".toList
  | .bool false => "false".toList
  | .num cs => cs
  | .str s => '"' :: s.toList.flatMap escape ++ ['"']
  | .garbled => "\"\\ud800\"".toList

end Token

/-- Drops one or more digits. -/
def dropDigits? (cs : List Char) : Option (List Char) :=
  if (cs.takeWhile Char.isDigit).isEmpty then none else some (cs.dropWhile Char.isDigit)

/-- Whether the rest of a numeral is an exponent or nothing. -/
def isExponent : List Char → Bool
  | [] => true
  | c :: cs =>
    (c == 'e' || c == 'E') &&
      dropDigits? (match cs with
        | '+' :: cs => cs
        | '-' :: cs => cs
        | cs => cs) == some []

/-- Whether the rest of a numeral, after its integer part, is a fraction and an exponent, either of
which may be missing. -/
def isFraction : List Char → Bool
  | '.' :: cs => (dropDigits? cs).any isExponent
  | cs => isExponent cs

/-- Whether a text is a JSON numeral: an integer part without leading zeros, then a fraction and an
exponent, either of which may be missing. -/
def isNumeral (cs : List Char) : Bool :=
  match (match cs with
    | '-' :: cs => cs
    | cs => cs) with
  | '0' :: cs => isFraction cs
  | cs => (dropDigits? cs).any isFraction

/-- Whether the character can stand in a numeral. -/
def isNumeralChar (c : Char) : Bool :=
  c.isDigit || c == '-' || c == '+' || c == '.' || c == 'e' || c == 'E'

/-- Where the scanner stands inside a string. -/
inductive Quoted where
  /-- Between two characters. -/
  | plain
  /-- After a backslash. -/
  | escape
  /-- In a hexadecimal escape, with the digits still to come and the value so far. A high surrogate
  that came before is kept. -/
  | hex (high : Option Nat) (left : Nat) (value : Nat)
  /-- After a high surrogate: the backslash of its low half should follow. -/
  | lowEscape (high : Nat)
  /-- After a high surrogate and a backslash: a `u` should follow. -/
  | lowUnit (high : Nat)

/-- Where the scanner stands. Characters read so far stand last first; a garbled string has none. -/
inductive Scanner where
  | between
  | word (chars : List Char)
  | numeral (chars : List Char)
  | quoted (chars : Option (List Char)) (place : Quoted)

/-- The token of a word. -/
def Token.ofWord? (w : String) : Option Token :=
  if w = "null" then some .null
  else if w = "true" then some (.bool true)
  else if w = "false" then some (.bool false)
  else none

/-- The character that a one-letter escape denotes. -/
def unescape? (c : Char) : Option Char :=
  if c = '"' ∨ c = '\\' ∨ c = '/' then some c
  else if c = 'b' then some '\x08'
  else if c = 'f' then some '\x0c'
  else if c = 'n' then some '\n'
  else if c = 'r' then some '\r'
  else if c = 't' then some '\t'
  else none

/-- What follows a complete hexadecimal escape of value `v`. A high surrogate waits for its other half;
a surrogate without one garbles the string. -/
def Scanner.unit (chars : Option (List Char)) (high : Option Nat) (v : Nat) : Scanner :=
  match high with
  | none =>
    if 0xD800 ≤ v ∧ v < 0xDC00 then .quoted chars (.lowEscape v)
    else if 0xDC00 ≤ v ∧ v < 0xE000 then .quoted none .plain
    else .quoted (chars.map (Char.ofNat v :: ·)) .plain
  | some h =>
    if 0xDC00 ≤ v ∧ v < 0xE000 then
      let c := Char.ofNat (0x10000 + (h - 0xD800) * 0x400 + (v - 0xDC00))
      .quoted (chars.map (c :: ·)) .plain
    else .quoted none .plain

/-- The token of a string, from its characters, last first. -/
def Token.ofQuoted : Option (List Char) → Token
  | some cs => .str (String.ofList cs.reverse)
  | none => .garbled

/-- One character between two characters of a string. -/
def Scanner.plainStep? (chars : Option (List Char)) (c : Char) : Option (List Token × Scanner) :=
  if c = '"' then some ([.ofQuoted chars], .between)
  else if c = '\\' then some ([], .quoted chars .escape)
  else if c.toNat < 0x20 then none
  else some ([], .quoted (chars.map (c :: ·)) .plain)

/-- One character after a backslash. -/
def Scanner.escapeStep? (chars : Option (List Char)) (c : Char) : Option (List Token × Scanner) :=
  if c = 'u' then some ([], .quoted chars (.hex none 4 0))
  else (unescape? c).map fun d => ([], .quoted (chars.map (d :: ·)) .plain)

/-- One character inside a string. The first component holds the finished string, if any. -/
def Scanner.quotedStep? (chars : Option (List Char)) (c : Char) : Quoted → Option (List Token × Scanner)
  | .plain => plainStep? chars c
  | .escape => escapeStep? chars c
  | .hex high left value => do
    let v := value * 16 + (← Text.hexValue? c)
    if left ≤ 1 then return ([], Scanner.unit chars high v)
    else return ([], .quoted chars (.hex high (left - 1) v))
  | .lowEscape high =>
    if c = '\\' then some ([], .quoted chars (.lowUnit high)) else plainStep? none c
  | .lowUnit high =>
    if c = 'u' then some ([], .quoted chars (.hex (some high) 4 0)) else escapeStep? none c

/-- One character outside of any word, numeral or string. -/
def Scanner.freshStep? (c : Char) : Option (List Token × Scanner) :=
  if c = ' ' ∨ c = '\t' ∨ c = '\n' ∨ c = '\r' then some ([], .between)
  else if c = '[' then some ([.openArr], .between)
  else if c = ']' then some ([.closeArr], .between)
  else if c = '\x7b' then some ([.openObj], .between)
  else if c = '\x7d' then some ([.closeObj], .between)
  else if c = ',' then some ([.comma], .between)
  else if c = ':' then some ([.colon], .between)
  else if c = '"' then some ([], .quoted (some []) .plain)
  else if c.isDigit || c == '-' then some ([], .numeral [c])
  else if c.isLower then some ([], .word [c])
  else none

/-- The token that ends where the scanner stands. -/
def Scanner.flush? : Scanner → Option (List Token)
  | .between => some []
  | .word cs => (Token.ofWord? (String.ofList cs.reverse)).map ([·])
  | .numeral cs => if isNumeral cs.reverse then some [.num cs.reverse] else none
  | .quoted _ _ => none

/-- One character, with the tokens that it completes. -/
def Scanner.step? (s : Scanner) (c : Char) : Option (List Token × Scanner) :=
  match s with
  | .quoted chars place => Scanner.quotedStep? chars c place
  | .word cs =>
    if c.isLower then some ([], .word (c :: cs))
    else do
      let done ← s.flush?
      let (more, s) ← Scanner.freshStep? c
      return (done ++ more, s)
  | .numeral cs =>
    if isNumeralChar c then some ([], .numeral (c :: cs))
    else do
      let done ← s.flush?
      let (more, s) ← Scanner.freshStep? c
      return (done ++ more, s)
  | .between => Scanner.freshStep? c

/-- The tokens of the rest of a text. -/
def Scanner.run? (s : Scanner) : List Char → Option (List Token)
  | [] => s.flush?
  | c :: cs => do
    let (done, s) ← s.step? c
    return done ++ (← s.run? cs)

/-- Cuts a text into tokens. -/
def Token.scan? (cs : List Char) : Option (List Token) := Scanner.run? .between cs

end Datalog.Json
