import Datalog.Builtin.Word
import Datalog.Rule
import Datalog.Text.Uppercase

/-!
# Builtin predicates

Relations that the engine itself decides: comparison, arithmetic, concatenation and lengths. An atom
is a builtin when its symbol is the name of one, letter case aside, and its arity is the builtin's.
`Builtin.holds` is the relation of a builtin, and `Builtin.solve?` computes the one missing argument
where its position allows that. Wrong types, overflow and division by zero make the relation fail;
they are never errors.
-/

namespace Datalog

/-- The builtin predicates. -/
inductive Builtin where
  | equal
  | notEqual
  | less
  | lessEqual
  | greater
  | greaterEqual
  | add
  | subtract
  | multiply
  | divide
  | modulus
  | concat
  | stringLength
  | listLength
  deriving DecidableEq, Inhabited

namespace Builtin

/-- Every builtin. -/
def all : List Builtin :=
  [equal, notEqual, less, lessEqual, greater, greaterEqual, add, subtract, multiply, divide, modulus,
    concat, stringLength, listLength]

/-- The name of a builtin, in upper case. -/
def name : Builtin → String
  | .equal => "EQUAL"
  | .notEqual => "NOT_EQUAL"
  | .less => "LESS"
  | .lessEqual => "LESS_EQUAL"
  | .greater => "GREATER"
  | .greaterEqual => "GREATER_EQUAL"
  | .add => "ADD"
  | .subtract => "SUBTRACT"
  | .multiply => "MULTIPLY"
  | .divide => "DIVIDE"
  | .modulus => "MODULUS"
  | .concat => "CONCAT"
  | .stringLength => "STRING_LENGTH"
  | .listLength => "LIST_LENGTH"

/-- The number of arguments. -/
def arity : Builtin → Nat
  | .add | .subtract | .multiply | .divide | .modulus | .concat => 3
  | _ => 2

/-- The builtin with the given name, in any letter case, and arity. -/
def find? (symbol : String) (arity : Nat) : Option Builtin :=
  all.find? fun b => Text.upperIs symbol b.name && b.arity == arity

/-- The builtin that a predicate names. -/
def ofPredicate? (p : Predicate) : Option Builtin := find? p.symbol p.arity

/-- The builtin that an atom names. -/
def ofAtom? (a : Atom) : Option Builtin := ofPredicate? a.predicate

/-- Whether the argument at a position can be computed from the others. -/
def canBind : Builtin → Nat → Bool
  | .equal, i => i < 2
  | .add, i | .subtract, i | .multiply, i | .concat, i => i < 3
  | .divide, i | .modulus, i => i == 2
  | .stringLength, i | .listLength, i => i == 1
  | _, _ => false

/-- The result of an arithmetic builtin, where it is a word. -/
def arithmetic? : Builtin → Int64 → Int64 → Option Int64
  | .add, a, b => Word.ofInt? (a.toInt + b.toInt)
  | .subtract, a, b => Word.ofInt? (a.toInt - b.toInt)
  | .multiply, a, b => Word.ofInt? (a.toInt * b.toInt)
  | .divide, a, b => Word.quotient? a b
  | .modulus, a, b => Word.remainder? a b
  | _, _, _ => none

/-- How two constants of the same kind compare. -/
def order? (a b : Term) : Option Ordering :=
  match a, b with
  | .const (.int x), .const (.int y) => some (compare x y)
  | .const (.str x), .const (.str y) => some (compare x y)
  | .const (.bool x), .const (.bool y) => some (compare x y)
  | _, _ => none

/-- The items of a list term. -/
def items? : Term → Option (List Term)
  | .app f ts => if f = Term.listFunctor then some ts else none
  | _ => none

/-- Whether a text begins with one text, ends with another, and is as long as the two together. -/
def isConcat (front back whole : String) : Bool :=
  whole.utf8ByteSize == front.utf8ByteSize + back.utf8ByteSize &&
    front.toList.isPrefixOf whole.toList && back.toList.isSuffixOf whole.toList

/-- The relation of a builtin. -/
def holds : Builtin → List Term → Bool
  | .equal, [a, b] => a = b
  | .notEqual, [a, b] => a ≠ b
  | .less, [a, b] => order? a b == some .lt
  | .lessEqual, [a, b] => (order? a b).any Ordering.isLE
  | .greater, [a, b] => order? a b == some .gt
  | .greaterEqual, [a, b] => (order? a b).any Ordering.isGE
  | .concat, [a, b, c] =>
    match a.str?, b.str?, c.str? with
    | some a, some b, some c => isConcat a b c
    | _, _, _ => false
  | .stringLength, [s, n] =>
    match s.str?, n.int? with
    | some s, some n => (s.length : Int) = n.toInt
    | _, _ => false
  | .listLength, [l, n] =>
    match items? l, n.int? with
    | some ts, some n => (ts.length : Int) = n.toInt
    | _, _ => false
  | op, [a, b, c] =>
    match a.int?, b.int?, c.int? with
    | some a, some b, some c => op.arithmetic? a b == some c
    | _, _, _ => false
  | _, _ => false

/-- The value of the one missing argument, where the others determine it. -/
def solve? : Builtin → List (Option Term) → Option Term
  | .equal, [none, some b] => some b
  | .equal, [some a, none] => some a
  | .concat, [some a, some b, none] => do return .str ((← a.str?) ++ (← b.str?))
  | .concat, [none, some b, some c] => do
    return .str (String.ofList (← (← b.str?).toList.isSuffixOf? (← c.str?).toList))
  | .concat, [some a, none, some c] => do
    return .str (String.ofList (← (← a.str?).toList.isPrefixOf? (← c.str?).toList))
  | .stringLength, [some s, none] => do return .int (← Word.ofInt? (← s.str?).length)
  | .listLength, [some l, none] => do return .int (← Word.ofInt? (← items? l).length)
  | .add, [none, some b, some c] => do return .int (← Word.ofInt? ((← c.int?).toInt - (← b.int?).toInt))
  | .add, [some a, none, some c] => do return .int (← Word.ofInt? ((← c.int?).toInt - (← a.int?).toInt))
  | .subtract, [none, some b, some c] => do
    return .int (← Word.ofInt? ((← c.int?).toInt + (← b.int?).toInt))
  | .subtract, [some a, none, some c] => do
    return .int (← Word.ofInt? ((← a.int?).toInt - (← c.int?).toInt))
  | .multiply, [none, some b, some c] => do return .int (← Word.exactQuotient? (← c.int?) (← b.int?))
  | .multiply, [some a, none, some c] => do return .int (← Word.exactQuotient? (← c.int?) (← a.int?))
  | op, [some a, some b, none] => do return .int (← op.arithmetic? (← a.int?) (← b.int?))
  | _, _ => none

end Builtin

namespace Literal

/-- The builtin that a literal names. -/
def builtin? (l : Literal) : Option Builtin := Builtin.ofAtom? l.atom

/-- Whether the literal is a builtin rather than a stored relation. -/
def isBuiltin (l : Literal) : Bool := l.builtin?.isSome

/-- Whether the literal is a stored relation that is not negated: the literals that are joined. -/
def isJoinable (l : Literal) : Bool := l.positive && !l.isBuiltin

end Literal

end Datalog
