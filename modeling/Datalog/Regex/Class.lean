import Datalog.Regex.Atom

/-!
# Classes of characters in brackets

A class lists characters, ranges, named classes and further classes in brackets, and may join such
lists by operators. How deep a class nests is all that is kept of it: a bracket, an operator and a
list of two items or more each count for one level.
-/

namespace Datalog.Regex

/-- The deepest of several parts. -/
def deepest (depths : List Nat) : Nat := depths.foldr max 0

/-- The depth of parts that stand together: one alone adds no level. -/
def togetherDepth : List Nat → Nat
  | [] => 0
  | [d] => d
  | ds => deepest ds + 1

/-- The names of the classes of ASCII characters. -/
def asciiClasses : List String :=
  ["alnum", "alpha", "ascii", "blank", "cntrl", "digit", "graph", "lower", "print", "punct", "space",
    "upper", "word", "xdigit"]

/-- A named class, and whether it is negated. -/
def namedClass : Scan Bool := do
  Scan.chars ['[', ':']
  let negated ← Scan.accept ['^']
  let name ← Scan.takeWhile (· ≠ ':')
  Scan.chars [':', ']']
  guard (asciiClasses.contains (String.ofList name))
  return negated

/-- An operator between lists of items. -/
def classOperator : Scan Unit :=
  Scan.chars ['&', '&'] <|> Scan.chars ['-', '-'] <|> Scan.chars ['~', '~']

namespace Flags

/-- Whether an item may have a character: where characters are bytes it has to be ASCII. -/
def takesMember (f : Flags) (c : Char) : Bool := f.unicode || c.toNat < 0x80

/-- One end of a range, or an item alone. -/
def member (f : Flags) : Scan Atom := do
  let a ← match ← Scan.next with
    | '\\' => f.escape
    | c => f.literal c
  match a with
  | .literal c => guard (f.takesMember c)
  | .characters => pure ()
  | .assertion => failure
  return a

/-- Whether a minus sign comes next that makes a range. One before a closing bracket or a minus sign
does not. -/
def startsRange (f : Flags) : List Char → Bool
  | '-' :: cs => !(f.peekPast? cs == some ']' || f.peekPast? cs == some '-')
  | _ => false

/-- A range whose ends are characters in order, or an item alone. -/
def range (f : Flags) : Scan Unit := do
  let first ← f.member
  f.skip
  if f.startsRange (← get) then
    Scan.char '-'
    f.skip
    match first, ← f.member with
    | .literal a, .literal b => guard (a.toNat ≤ b.toNat)
    | _, _ => failure

/-- The depth of the lists of items up to the closing bracket, given a reader of the brackets within,
the depth of the lists before the last operator, and the depths of the items after it. -/
def classItems (f : Flags) (nested : Scan Nat) (left : Option Nat) (items : List Nat) : Nat → Scan Nat
  | 0 => failure
  | n + 1 => do
    f.skip
    let depth := match left with
      | none => togetherDepth items
      | some d => max d (togetherDepth items) + 1
    match ← Scan.peek? with
    | none => failure
    | some ']' => do
      Scan.char ']'
      return depth
    | some '[' => do
      match ← Scan.optional namedClass with
      | some negated => do
        guard (f.takesLiteral && (f.unicode || !negated))
        f.classItems nested left (0 :: items) n
      | none => do f.classItems nested left ((← nested) :: items) n
    | some _ => do
      match ← Scan.optional classOperator with
      | some () => f.classItems nested (some depth) [] n
      | none => do
        f.range
        f.classItems nested left (0 :: items) n

/-- The minus signs that a class starts with, which stand for themselves. -/
def leadingMinus (f : Flags) : Nat → Scan (List Nat)
  | 0 => failure
  | n + 1 => do
    if ← Scan.accept ['-'] then
      guard f.takesLiteral
      f.skip
      return 0 :: (← f.leadingMinus n)
    else return []

/-- The items that a class starts with: minus signs, or a closing bracket. -/
def leadingItems (f : Flags) : Scan (List Nat) := do
  let items ← Scan.bounded f.leadingMinus
  if items = [] && (← Scan.accept [']']) then
    guard f.takesLiteral
    return [0]
  else return items

/-- The depth of a class in brackets that nests no deeper than a number of brackets. -/
def bracketed (f : Flags) : Nat → Scan Nat
  | 0 => failure
  | levels + 1 => do
    Scan.char '['
    f.skip
    if ← Scan.accept ['^'] then
      guard f.unicode
      f.skip
    let items ← f.leadingItems
    let depth ← Scan.bounded (f.classItems (f.bracketed levels) none items)
    return depth + 1

end Flags

end Datalog.Regex
