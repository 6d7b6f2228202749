/-!
# Reading a text from left to right

A scan takes a value off the front of a text, or refuses the text. Scans are put together by `do` and
by `<|>`, which starts over where the first scan started.
-/

namespace Datalog

/-- Takes a value off the front of a text. -/
abbrev Scan := StateT (List Char) Option

namespace Scan

/-- The value of a scan that takes the whole text. -/
def whole? {α : Type} (s : Scan α) (cs : List Char) : Option α := do
  match ← s cs with
  | (a, []) => some a
  | _ => none

/-- A value, if there is one. -/
def ofOption {α : Type} (o : Option α) : Scan α := fun cs => o.map fun a => (a, cs)

/-- The next character, which stays. -/
def peek? : Scan (Option Char) := fun cs => some (cs.head?, cs)

/-- The next character. -/
def next : Scan Char
  | [] => none
  | c :: cs => some (c, cs)

/-- The given characters. -/
def chars (word : List Char) : Scan Unit := fun cs => (word.isPrefixOf? cs).map fun rest => ((), rest)

/-- The given character. -/
def char (c : Char) : Scan Unit := chars [c]

/-- Whether the given characters come next; if they do they are taken. -/
def accept (word : List Char) : Scan Bool := fun cs =>
  match word.isPrefixOf? cs with
  | some rest => some (true, rest)
  | none => some (false, cs)

/-- The value of a scan if it takes what comes next; otherwise nothing is taken. -/
def optional {α : Type} (s : Scan α) : Scan (Option α) := (some <$> s) <|> pure none

/-- The longest run of characters of a class. -/
def takeWhile (p : Char → Bool) : Scan (List Char) := fun cs => some (cs.takeWhile p, cs.dropWhile p)

/-- Passes over the longest run of characters of a class. -/
def skipWhile (p : Char → Bool) : Scan Unit := fun cs => some ((), cs.dropWhile p)

/-- The longest run of characters of a class, which must not be empty. -/
def takeSome (p : Char → Bool) : Scan (List Char) := do
  match ← takeWhile p with
  | [] => failure
  | cs => return cs

/-- A number of a given number of hexadecimal digits, after the digits of `high`. -/
def hexNumber (value? : Char → Option Nat) (high : Nat) : Nat → Scan Nat
  | 0 => return high
  | k + 1 => do
    let d ← ofOption (value? (← next))
    hexNumber value? (16 * high + d) k

/-- A scan that may go once around for every character left, and once more. -/
def bounded {α : Type} (s : Nat → Scan α) : Scan α := fun cs => s (cs.length + 1) cs

end Scan

end Datalog
