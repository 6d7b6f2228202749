import Datalog.Toml.Quoted
import Datalog.Toml.Scalar

/-!
# TOML documents

A document is a list of lines. A header opens a table; a key with a value adds to the table that was
opened last; both may have a comment behind them, and other lines hold comments or nothing.
-/

namespace Datalog.Toml

/-- One more than the number of containers that a value may nest, and than that of the parts of a key. -/
def nestingLimit : Nat := 80

/-- Passes over the blanks within a line. -/
def blanks : Scan Unit := Scan.skipWhile isBlank

/-- Passes over a comment, if there is one. -/
def comment : Scan Unit := do
  if ← Scan.accept ['#'] then Scan.skipWhile isPlain

/-- Passes over blanks, comments and line breaks. -/
def blanksAndComments : Nat → Scan Unit
  | 0 => failure
  | n + 1 => do
    blanks
    comment
    (do newline; blanksAndComments n) <|> pure ()

/-- The characters of keys that stand without quotes. -/
def isKeyChar (c : Char) : Bool := c.isAlphanum || c == '_' || c == '-'

/-- One part of a dotted key. -/
def keyPart : Scan String := do
  match ← Scan.peek? with
  | some '"' => line '"'
  | some '\'' => line '\''
  | _ => return String.ofList (← Scan.takeSome isKeyChar)

/-- A dotted key of at most the given number of parts: those that lead to a table, and the key there.
Blanks may stand around the parts. -/
def dottedKey : Nat → Scan (List String × String)
  | 0 => failure
  | n + 1 => do
    blanks
    let k ← keyPart
    blanks
    if ← Scan.accept ['.'] then
      let (path, last) ← dottedKey n
      return (k :: path, last)
    else return ([], k)

/-- A key with its value. -/
def pair (value : Scan Toml) : Scan (List String × String × Toml) := do
  let (path, key) ← dottedKey (nestingLimit - 1)
  Scan.char '='
  blanks
  return (path, key, ← value)

/-- The items of an array, after the opening bracket. A comma may follow the last. -/
def items (value : Scan Toml) : Nat → Scan (List Toml)
  | 0 => failure
  | n + 1 => do
    Scan.bounded blanksAndComments
    if ← Scan.accept [']'] then return []
    let v ← value
    Scan.bounded blanksAndComments
    if ← Scan.accept [','] then return v :: (← items value n)
    Scan.char ']'
    return [v]

/-- The members of a table in braces, after those that it already has. -/
def members (value : Scan Toml) (ms : Members) : Nat → Scan Members
  | 0 => failure
  | n + 1 => do
    let (path, key, v) ← pair value
    let ms ← Scan.ofOption (define path key v .braces ms)
    blanks
    if ← Scan.accept [','] then members value ms n
    else
      Scan.char '\x7d'
      return ms

/-- A table in braces, after the opening brace. -/
def braced (value : Scan Toml) : Scan Members := do
  blanks
  if ← Scan.accept ['\x7d'] then return [] else Scan.bounded (members value [])

/-- A value that stands without quotes. A blank may divide a day from a time. -/
def word : Scan Toml := do
  let cs ← Scan.takeSome isWordChar
  if isDay cs then
    (do
      Scan.char ' '
      let time ← Scan.takeSome isWordChar
      if isTimeOfDay time then return .date else failure) <|> return .date
  else Scan.ofOption (ofWord? cs)

/-- A value that nests fewer containers than the given number. -/
def value : Nat → Scan Toml
  | 0 => failure
  | n + 1 => do
    match ← Scan.peek? with
    | some '"' => return .str (← quoted '"')
    | some '\'' => return .str (← quoted '\'')
    | some '[' =>
      if n = 0 then failure
      Scan.char '['
      return .arr (← Scan.bounded (items (value n)))
    | some '\x7b' =>
      if n = 0 then failure
      Scan.char '\x7b'
      return .table .braces (← braced (value n))
    | _ => word

/-- The tables so far, and the header that was opened last. -/
structure Draft where
  root : Members := []
  current : List String := []

/-- A header, after its first bracket. -/
def header (d : Draft) : Scan Draft := do
  let double ← Scan.accept ['[']
  let (path, key) ← dottedKey (nestingLimit - 1)
  Scan.char ']'
  if double then
    Scan.char ']'
    return ⟨← Scan.ofOption (openItem path key d.root), path ++ [key]⟩
  else return ⟨← Scan.ofOption (openTable path key d.root), path ++ [key]⟩

/-- A header, or a key with its value. -/
def entry (d : Draft) : Scan Draft := do
  if ← Scan.accept ['['] then header d
  else
    let (path, key, v) ← pair (value nestingLimit)
    return { d with root := ← Scan.ofOption (atHeader d.current (define path key v) d.root) }

/-- What a line holds before its comment. -/
def statement (d : Draft) : Scan Draft := do
  blanks
  match ← Scan.peek? with
  | none => return d
  | some c => if c = '#' || c = '\n' || c = '\r' then return d else entry d

/-- The lines of a document. -/
def lines (d : Draft) : Nat → Scan Draft
  | 0 => failure
  | n + 1 => do
    let d ← statement d
    blanks
    comment
    (do newline; lines d n) <|> pure d

/-- The members of the table that a document describes. A byte order mark may come first. -/
def document : Scan Members := do
  let _ ← Scan.accept ['\uFEFF']
  return (← Scan.bounded (lines {})).root

/-- Reads a document. -/
def parse? (s : String) : Option Members := document.whole? s.toList

end Datalog.Toml
