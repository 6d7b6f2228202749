import Datalog.Plan
import Datalog.Safety

/-!
# Operators of a rule

Each body literal becomes one operator on the running relation, whose columns are the variables bound
so far: a join for a positive stored literal, an antijoin for a negated one, a builtin call for a
builtin. The last operator fills the running relation into the head.
-/

namespace Datalog

/-- What an operator does with the running relation. -/
inductive Operator.Kind where
  | join (p : Predicate)
  | antijoin (p : Predicate)
  | builtin (b : Builtin)
  | substitute
  deriving DecidableEq

/-- One step of the evaluation of a rule. -/
structure Operator where
  kind : Operator.Kind
  plan : Plan
  /-- The columns of the relation that the operator makes; none are named after the head is filled in. -/
  schema : List String

namespace Operator

/-- The name of the running relation among the inputs of an operator. -/
def running : String := "running"

/-- The name of the facts of the literal among the inputs of an operator. -/
def source : String := "source"

/-- The predicate whose facts the operator reads. -/
def source? (op : Operator) : Option Predicate :=
  match op.kind with
  | .join p => some p
  | .antijoin p => some p
  | _ => none

/-- The predicate for whose facts new tuples may stand in. -/
def delta? (op : Operator) : Option Predicate :=
  match op.kind with
  | .join p => some p
  | _ => none

/-- The text of an operator, such as `join p/2`. -/
def text (op : Operator) : String :=
  match op.kind with
  | .join p => "join " ++ p.text
  | .antijoin p => "antijoin " ++ p.text
  | .builtin b => "builtin " ++ b.name
  | .substitute => "substitute"

/-- Reads the facts of an atom: those that hold its ground terms, matched against its terms. The facts
have the arity of the predicate, the filter that of the terms. -/
def scan (a : Atom) : Plan :=
  let filter : ConstantFilter := ⟨a.terms.length, ConstantFilter.groundTerms a.terms⟩
  let input := Plan.input source a.predicate.arity
  .unify (if filter.constants.isEmpty then input else .filter input filter) ⟨a.terms⟩

/-- The columns of the schema and of the pattern that hold the same variable, by pattern column. -/
def sharedColumns (schema vars : List String) : List (Nat × Nat) :=
  vars.zipIdx.filterMap fun (x, i) => (schema.idxOf? x).map (·, i)

/-- The columns of the pattern whose variables the schema lacks. -/
def newColumns (schema vars : List String) : List Nat :=
  (vars.zipIdx.filter fun (x, _) => x ∉ schema).map Prod.snd

/-- Joins the running relation with the facts of an atom. -/
def ofJoin (schema : List String) (a : Atom) : Operator :=
  let shared := sharedColumns schema a.varNames
  { kind := .join a.predicate
    plan := .join (.input running schema.length) (scan a) (shared.map Prod.fst) (shared.map Prod.snd)
      (newColumns schema a.varNames)
    schema := schema ++ a.varNames.filter (· ∉ schema) }

/-- Keeps the rows of the running relation for which the atom is no fact. -/
def ofAntijoin (r : Rule) (schema : List String) (a : Atom) : Except EngineError Operator :=
  match a.firstUnbound? schema with
  | some x => .error (.safety r (.negatedVariable x a))
  | none =>
    let shared := sharedColumns schema a.varNames
    .ok {
      kind := .antijoin a.predicate
      plan := .antijoin (.input running schema.length) (scan a) (shared.map Prod.fst)
        (shared.map Prod.snd)
      schema := schema }

/-- The call of a builtin on the running relation. -/
def call (schema : List String) (b : Builtin) (a : Atom) (output : Option String) (negated : Bool) :
    Operator :=
  { kind := .builtin b
    plan := .builtin (.input running schema.length) ⟨b, a.terms, schema, output, negated⟩
    schema := schema ++ output.toList }

/-- Checks a builtin on the rows of the running relation, or computes its one unbound argument. A
negated builtin only checks. -/
def ofBuiltin (r : Rule) (schema : List String) (b : Builtin) (a : Atom) (negated : Bool) :
    Except EngineError Operator :=
  match b.mode a schema with
  | .check => .ok (call schema b a none negated)
  | .tooMany n => .error (.arity (.unboundInRule a r n))
  | .bind x =>
    if negated then .error (.safety r (.negatedBuiltin a)) else .ok (call schema b a (some x) negated)
  | .stuck i =>
    .error (.safety r (if negated then .negatedBuiltin a else .cannotBind a i b))

/-- The operator of a body literal. -/
def ofLiteral (r : Rule) (schema : List String) (l : Literal) : Except EngineError Operator :=
  match l.builtin?, l.positive with
  | some b, positive => ofBuiltin r schema b l.atom !positive
  | none, true => .ok (ofJoin schema l.atom)
  | none, false => ofAntijoin r schema l.atom

/-- Fills the rows of the running relation into the head. -/
def ofHead (r : Rule) (schema : List String) : Except EngineError Operator :=
  let template : Template := ⟨r.head.terms, schema⟩
  match template.unboundVariables with
  | x :: _ => .error (.safety r (.headVariable x))
  | [] =>
    .ok {
      kind := .substitute
      plan := .substitute (.input running schema.length) template
      schema := [] }

end Operator

end Datalog
