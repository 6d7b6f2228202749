import Datalog.Text.Hexadecimal
import Datalog.Text.Scan

/-!
# Quoted texts

A text stands between single or double quotes, on one line, or between three of them, on any number
of lines. Between double quotes a backslash starts an escape, and at the end of a line it joins the
lines, leaving out the blanks around the break.
-/

namespace Datalog.Toml

/-- The blanks within a line. -/
def isBlank (c : Char) : Bool := c == ' ' || c == '\t'

/-- The characters that stand for themselves in texts and comments: no controls but the tab. -/
def isPlain (c : Char) : Bool := c == '\t' || (0x20 ≤ c.toNat && c.toNat ≠ 0x7F)

/-- A line break. -/
def newline : Scan Unit := Scan.chars ['\n'] <|> Scan.chars ['\r', '\n']

/-- Passes over blanks and line breaks. -/
def blankLines : Nat → Scan Unit
  | 0 => failure
  | n + 1 => do
    Scan.skipWhile isBlank
    (do newline; blankLines n) <|> pure ()

/-- The character with the code point that a number of hexadecimal digits give. -/
def codePoint (digits : Nat) : Scan Char := do
  let v ← Scan.hexNumber Text.hexValue? 0 digits
  if v.isValidChar then return Char.ofNat v else failure

/-- What an escape stands for, after its backslash. -/
def escaped : Scan Char := do
  match ← Scan.next with
  | 'b' => return '\x08'
  | 't' => return '\t'
  | 'n' => return '\n'
  | 'f' => return '\x0c'
  | 'r' => return '\r'
  | '"' => return '"'
  | '\\' => return '\\'
  | 'u' => codePoint 4
  | 'U' => codePoint 8
  | _ => failure

/-- The rest of a text on one line, after its opening quote. -/
def lineRest (quote : Char) : Nat → Scan (List Char)
  | 0 => failure
  | n + 1 => do
    let c ← Scan.next
    if c = quote then return []
    else if c = '\\' && quote = '"' then
      let e ← escaped
      return e :: (← lineRest quote n)
    else if isPlain c then return c :: (← lineRest quote n)
    else failure

/-- The rest of a text on several lines, after its three opening quotes. Three quotes end it, and up to
two more before them belong to it. -/
def blockRest (quote : Char) : Nat → Scan (List Char)
  | 0 => failure
  | n + 1 => do
    if ← Scan.accept [quote, quote, quote] then
      let more ← Scan.accept [quote]
      let evenMore ← if more then Scan.accept [quote] else pure false
      return List.replicate (more.toNat + evenMore.toNat) quote
    else
      (do newline; return '\n' :: (← blockRest quote n)) <|> do
        let c ← Scan.next
        if c = '\\' && quote = '"' then
          (do
            Scan.skipWhile isBlank
            newline
            Scan.bounded blankLines
            blockRest quote n) <|> do
              let e ← escaped
              return e :: (← blockRest quote n)
        else if isPlain c then return c :: (← blockRest quote n)
        else failure

/-- A text on one line, in the given quotes. -/
def line (quote : Char) : Scan String := do
  Scan.char quote
  return String.ofList (← Scan.bounded (lineRest quote))

/-- A text in the given quotes, single or threefold. A line break right after three opening quotes does
not count. -/
def quoted (quote : Char) : Scan String := do
  if ← Scan.accept [quote, quote, quote] then
    newline <|> pure ()
    return String.ofList (← Scan.bounded (blockRest quote))
  else line quote

end Datalog.Toml
