import Datalog.Relation

/-!
# Predicates, atoms, literals and rules

A predicate is a symbol with an arity, so `p/1` and `p/2` are different predicates. A rule has one
head atom and a list of body literals, any of which may be negated; a rule without body is a fact.
-/

open Std (TransOrd LawfulEqOrd)

namespace Datalog

/-- A symbol together with an arity. -/
structure Predicate where
  symbol : String
  arity : Nat
  deriving DecidableEq, Inhabited

namespace Predicate

/-- Predicates are ordered by symbol and then by arity. -/
instance instOrd : Ord Predicate := ⟨compareLex (compareOn symbol) (compareOn arity)⟩

theorem compare_def (p q : Predicate) :
    compare p q = (compare p.symbol q.symbol).then (compare p.arity q.arity) := rfl

instance instTransOrd : TransOrd Predicate :=
  inferInstanceAs (Std.TransCmp (compareLex (compareOn symbol) (compareOn arity)))

instance instLawfulEqOrd : LawfulEqOrd Predicate where
  compare_self := Std.ReflCmp.compare_self
  eq_of_compare {p q} h := by
    rw [compare_def, Ordering.then_eq_eq] at h
    cases p; cases q
    simp_all

/-- The text of a predicate, such as `edge/2`. -/
def text (p : Predicate) : String := p.symbol ++ "/" ++ toString p.arity

instance : ToString Predicate := ⟨text⟩

end Predicate

/-- A predicate beside the terms it is applied to. Nothing ties the number of terms to the arity; where
the two agree, as in `Atom.new`, the atom fits. -/
structure Atom where
  predicate : Predicate
  terms : Tuple
  deriving DecidableEq, Inhabited

namespace Atom

/-- A symbol applied to terms; the predicate takes its arity from the terms. -/
def new (symbol : String) (terms : Tuple) : Atom := ⟨⟨symbol, terms.length⟩, terms⟩

@[simp] theorem predicate_new (symbol : String) (terms : Tuple) :
    (new symbol terms).predicate = ⟨symbol, terms.length⟩ := rfl

@[simp] theorem terms_new (symbol : String) (terms : Tuple) : (new symbol terms).terms = terms := rfl

/-- The variables of an atom, in order of first appearance. -/
def varNames (a : Atom) : List String := a.terms.varNames

/-- Whether no variable occurs in the atom. -/
def isGround (a : Atom) : Bool := a.terms.isGround

/-- The text of an atom, such as `edge(?X, 1)`. -/
def text (a : Atom) : String := a.predicate.symbol ++ a.terms.text

instance : ToString Atom := ⟨text⟩

/-- The atom whose terms are the given variables. -/
def ofVars (symbol : String) (names : List String) : Atom := new symbol (names.map .var)

/-- The atom whose terms are the given integers. -/
def ofInts (symbol : String) (ns : List Int64) : Atom := new symbol (Tuple.ofInts ns)

end Atom

/-- An atom, or the negation of one. -/
structure Literal where
  positive : Bool
  atom : Atom
  deriving DecidableEq, Inhabited

namespace Literal

/-- The literal that asserts `a`. -/
def pos (a : Atom) : Literal := ⟨true, a⟩

/-- The literal that denies `a`. -/
def neg (a : Atom) : Literal := ⟨false, a⟩

/-- The predicate of the literal's atom. -/
def predicate (l : Literal) : Predicate := l.atom.predicate

/-- The variables of the literal's atom, in order of first appearance. -/
def varNames (l : Literal) : List String := l.atom.varNames

/-- The text of a literal; a negated one starts with `NOT`. -/
def text (l : Literal) : String := (if l.positive then "" else "NOT ") ++ l.atom.text

instance : ToString Literal := ⟨text⟩

end Literal

/-- A head atom and the literals it follows from. -/
structure Rule where
  head : Atom
  body : List Literal := []
  deriving DecidableEq, Inhabited

namespace Rule

/-- Whether the body is empty. -/
def isFact (r : Rule) : Bool := r.body.isEmpty

/-- The predicate that the rule derives. -/
def headPredicate (r : Rule) : Predicate := r.head.predicate

/-- Whether the head predicate occurs in the body. -/
def isRecursive (r : Rule) : Bool := r.body.any fun l => l.predicate = r.headPredicate

/-- The distinct predicates of the body, in order of first appearance. -/
def bodyPredicates (r : Rule) : List Predicate := (r.body.map Literal.predicate).eraseDups

/-- The body literals that are not negated. -/
def positiveBody (r : Rule) : List Literal := r.body.filter Literal.positive

/-- The body literals that are negated. -/
def negatedBody (r : Rule) : List Literal := r.body.filter fun l => !l.positive

/-- The text of a rule, such as `p(?X) :- q(?X), NOT r(?X).` -/
def text (r : Rule) : String :=
  let body := if r.body.isEmpty then "" else " :- " ++ ", ".intercalate (r.body.map Literal.text)
  r.head.text ++ body ++ "."

instance : ToString Rule := ⟨text⟩

/-! ### Building rules step by step -/

/-- The rule whose head is the bare symbol and whose body is empty. -/
def start (symbol : String) : Rule := ⟨.new symbol [], []⟩

/-- Adds terms at the end of the head. -/
def addHeadTerms (r : Rule) (ts : List Term) : Rule :=
  { r with head := .new r.head.predicate.symbol (r.head.terms ++ ts) }

/-- Adds a literal at the end of the body. -/
def addLiteral (r : Rule) (l : Literal) : Rule := { r with body := r.body ++ [l] }

end Rule

end Datalog
