import Datalog.Text.Decimal

/-!
# JSON values

The tree of a JSON document. A number keeps its numeral, so that a reader can tell `1`, `1.0` and
`1e0` apart, and an object keeps its members in document order, repeated keys included. A string with
an escaped surrogate that has no other half denotes no text: it is garbled, as is an object with such
a key, and only a reader that looks at it needs to mind.
-/

namespace Datalog

/-- The tree of a JSON document. -/
inductive Json where
  | null
  | bool (b : Bool)
  | num (numeral : List Char)
  | str (s : String)
  | garbled
  | arr (items : List Json)
  | obj (members : List (String × Json))
  deriving Inhabited

namespace Json

/-- The integer that a numeral without fraction and exponent denotes. A negative zero is no
integer: it is the numeral of a fractional number. -/
def integer? : Json → Option Int
  | .num ('-' :: cs) => (Decimal.readNat? cs).bind fun n => if n = 0 then none else some (-(n : Int))
  | .num cs => (Decimal.readNat? cs).map Int.ofNat
  | _ => none

/-- The text of a string. -/
def text? : Json → Option String
  | .str s => some s
  | _ => none

/-- The items of an array. -/
def items? : Json → Option (List Json)
  | .arr js => some js
  | _ => none

/-- The numeral of an integer. -/
def int (n : Int) : Json := .num (toString n).toList

/-- The numeral of a natural number. -/
def nat (n : Nat) : Json := int n

/-- The members of an object with key `k`, in document order. -/
def members (k : String) : List (String × Json) → List Json := List.filterMap fun m =>
  if m.1 = k then some m.2 else none

/-- The last member of an object with key `k`. -/
def field? (k : String) : Json → Option Json
  | .obj ms => (members k ms).getLast?
  | _ => none

end Json

end Datalog
