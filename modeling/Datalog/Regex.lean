import Datalog.Regex.Class
import Datalog.Text.Letter

/-!
# Regular expressions

Which texts are regular expressions: alternatives of sequences of characters, classes, assertions,
groups and repetitions. A reader goes over the text once and keeps a stack of the groups that are
open. Of a finished part it keeps how deep it nests, since an expression may nest only so deep, and
whether it can be repeated.
-/

namespace Datalog.Regex

/-- The greatest depth of an expression. -/
def maxDepth : Nat := 250

/-- A finished part of a sequence. -/
structure Part where
  depth : Nat
  repeatable : Bool := true
  deriving DecidableEq, Inhabited

/-- What surrounds the sequence that is read: the depths of the alternatives before it, last first,
the parts read so far, last first, and the flags that hold again once the group is closed. -/
structure Surroundings where
  alternatives : List Nat
  parts : List Part
  flags : Flags
  deriving DecidableEq, Inhabited

/-- An expression read up to some place. -/
structure Reading where
  flags : Flags := {}
  names : List (List Char) := []
  alternatives : List Nat := []
  parts : List Part := []
  outer : List Surroundings := []
  deriving DecidableEq, Inhabited

namespace Reading

/-- The depth of the sequence read last. -/
def sequenceDepth (r : Reading) : Nat := togetherDepth (r.parts.map Part.depth)

/-- The depth of the group that is read. -/
def groupDepth (r : Reading) : Nat := togetherDepth (r.sequenceDepth :: r.alternatives)

/-- The reading with a further part. -/
def push (r : Reading) (p : Part) : Reading := { r with parts := p :: r.parts }

/-- Starts a group in which flags hold. -/
def openGroup (r : Reading) (flags : Flags) : Reading :=
  { r with
    flags
    alternatives := []
    parts := []
    outer := ⟨r.alternatives, r.parts, r.flags⟩ :: r.outer }

/-- Ends the innermost group. -/
def closeGroup? (r : Reading) : Option Reading :=
  match r.outer with
  | [] => none
  | s :: outer =>
    some { r with
      flags := s.flags
      alternatives := s.alternatives
      parts := { depth := r.groupDepth + 1 } :: s.parts
      outer }

/-- Starts a further alternative. -/
def nextAlternative (r : Reading) : Reading :=
  { r with alternatives := r.sequenceDepth :: r.alternatives, parts := [] }

/-- Repeats the last part. -/
def repeat? (r : Reading) : Option Reading :=
  match r.parts with
  | p :: parts => if p.repeatable then some { r with parts := { depth := p.depth + 1 } :: parts } else none
  | [] => none

/-- Whether characters are the name of a group. -/
def isName : List Char → Bool
  | [] => false
  | c :: cs =>
    (c == '_' || Text.isLetter c) &&
      cs.all fun c => ['_', '.', '[', ']'].contains c || Text.isLetterOrNumber c

/-- A group with a name of its own, from the name on. -/
def namedGroup (r : Reading) : Scan Reading := do
  let name ← Scan.takeWhile (· ≠ '>')
  Scan.char '>'
  guard (isName name && !r.names.contains name)
  return { r.openGroup r.flags with names := name :: r.names }

/-- A group with flags of its own, or flags for the rest of the group, from the letters on. -/
def flagGroup (r : Reading) : Scan Reading := do
  let letters ← Scan.takeWhile fun c => c ≠ ':' && c ≠ ')'
  guard (Flags.areLetters letters)
  let flags := r.flags.update letters
  if ← Scan.accept [':'] then return r.openGroup flags
  else do
    Scan.char ')'
    guard (letters ≠ [])
    return { r.push { depth := 0, repeatable := false } with flags }

/-- The start of a group. -/
def group (r : Reading) : Scan Reading := do
  Scan.char '('
  r.flags.skip
  if ← Scan.accept ['?', 'P', '<'] then r.namedGroup
  else if ← Scan.accept ['?', '<'] then r.namedGroup
  else if ← Scan.accept ['?'] then r.flagGroup
  else return r.openGroup r.flags

/-- A mark that the last part is repeated, and perhaps that it is repeated as little as possible. -/
def repetition (r : Reading) : Scan Reading := do
  let _ ← Scan.next
  let _ ← Scan.accept ['?']
  Scan.ofOption r.repeat?

/-- Reads to the end of the text. -/
def toEnd (r : Reading) : Nat → Scan Reading
  | 0 => failure
  | n + 1 => do
    r.flags.skip
    match ← Scan.peek? with
    | none => return r
    | some '(' => do toEnd (← r.group) n
    | some ')' => do
      Scan.char ')'
      toEnd (← Scan.ofOption r.closeGroup?) n
    | some '|' => do
      Scan.char '|'
      toEnd r.nextAlternative n
    | some '[' => do toEnd (r.push { depth := ← r.flags.bracketed maxDepth }) n
    | some '?' | some '*' | some '+' => do toEnd (← r.repetition) n
    | some '\x7b' => failure
    | some _ => do
      let _ ← r.flags.atom
      toEnd (r.push { depth := 0 }) n

/-- Whether the text that was read is an expression: every group is closed, and none nests too deep. -/
def isFinished (r : Reading) : Bool := r.outer = [] && r.groupDepth ≤ maxDepth

end Reading

/-- Whether a text is a regular expression. Counted repetitions are not taken. -/
def isValid (cs : List Char) : Bool :=
  (Scan.whole? (Scan.bounded fun n => Reading.toEnd {} n) cs).any Reading.isFinished

end Datalog.Regex
