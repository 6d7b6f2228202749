import Datalog.Regex
import Datalog.Text.Bytes
import Datalog.Text.Numeral

/-!
# Filters of a log

A filter is a list of directives, divided by commas. A directive names a level, or a target, a span
with one of its fields, and the level for them: `target[span{field=value}]=level`. It is read
without the blanks at its ends, but its parts are cut from the text that still has them, at the same
distance in bytes from the start; so blanks move the parts, and a level with a blank behind it is none.
-/

namespace Datalog.LogFilter

/-- The names of levels; a number up to 5 does as well. -/
def levels : List String := ["off", "error", "warn", "info", "debug", "trace"]

/-- Whether a text is a level, in any letter case. -/
def isLevel (cs : List Char) : Bool :=
  (Decimal.readUnsigned? cs).any (· ≤ 5) || levels.contains (String.ofList (cs.map Char.toLower))

/-- The words for numbers that have no digits. -/
def numberWords : List String := ["inf", "infinity", "nan"]

/-- Whether a text is a number. -/
def isNumber (cs : List Char) : Bool :=
  let cs := Decimal.unsigned cs
  numberWords.contains (String.ofList (cs.map Char.toLower)) ||
    (Decimal.Numeral.split? cs).any Decimal.Numeral.isDecimal

/-- Whether a text is a field: its name, and perhaps the value that it has to have, which is a number or
a regular expression. What follows a second equals sign does not count. -/
def isField (cs : List Char) : Bool :=
  match Text.splitOn '=' cs with
  | _ :: value :: _ => isNumber value || Regex.isValid value
  | _ => true

/-- Which part of a directive a character belongs to. The parts that are looked at keep where they start,
in bytes from the start of the directive. -/
inductive Place where
  | start
  | target
  | span
  | field (first : Nat)
  | fieldEnd
  | spanEnd
  | level (first : Nat)
  deriving DecidableEq, Inhabited

/-- The text between two distances from the start, in bytes. -/
def between? (cs : List Char) (first last : Nat) : Option (List Char) := do
  Text.takeBytes? (last - first) (← Text.dropBytes? first cs)

/-- Whether a target may start with a character. -/
def isTargetStart (c : Char) : Bool := ['-', ':', '_'].contains c || Text.isLetterOrNumber c

/-- The place after a character that stands `offset` bytes from the start. -/
def Place.step? (directive : List Char) (offset : Nat) (c : Char) : Place → Option Place
  | .start => if c = '[' then some .span else if isTargetStart c then some .target else none
  | .target =>
    some (if c = '=' then .level (offset + 1) else if c = '[' then .span else .target)
  | .span =>
    some (if c = ']' then .spanEnd else if c = '\x7b' then .field (offset + 1) else .span)
  | .field first =>
    if c = '\x7d' then do
      let field ← between? directive first offset
      if field ≠ [] && isField field then some .fieldEnd else none
    else some (.field first)
  | .fieldEnd => if c = ']' then some .spanEnd else none
  | .spanEnd => if c = '=' then some (.level (offset + 1)) else none
  | .level first => some (.level first)

/-- The place at the end of characters of which the first stands `offset` bytes from the start. -/
def Place.run? (directive : List Char) (offset : Nat) (p : Place) : List Char → Option Place
  | [] => some p
  | c :: cs => do
    let p ← p.step? directive offset c
    p.run? directive (offset + c.utf8Size) cs

/-- Whether a directive may end at a place. A level may be missing after its equals sign. -/
def Place.isEnd (directive : List Char) : Place → Bool
  | .target => true
  | .spanEnd => true
  | .level first => (Text.dropBytes? first directive).any fun cs => cs = [] || isLevel cs
  | _ => false

/-- Whether a text is a directive. -/
def isDirective (cs : List Char) : Bool :=
  (Place.run? cs 0 .start (Text.trim cs)).any (Place.isEnd cs)

/-- Whether a text is a filter. Nothing between two commas counts for nothing. -/
def isValid (filter : String) : Bool :=
  ((Text.splitOn ',' filter.toList).filter (· ≠ [])).all isDirective

end Datalog.LogFilter
