import Datalog.Error

/-!
# Rule safety

A rule is safe when every variable it needs gets a value: positive stored literals bind their
variables, a builtin with one unbound argument binds that argument when it is a plain variable at a
position the builtin can compute, and the variables of negated literals and of the head have to be
bound by the rest. The order of the body does not matter here.
-/

namespace Datalog

namespace Atom

/-- The positions of an atom whose terms hold a variable outside of `bound`. -/
def unboundPositions (a : Atom) (bound : List String) : List Nat :=
  (a.terms.zipIdx.filter fun (t, _) => t.occurrences.any (· ∉ bound)).map Prod.snd

/-- The first variable of an atom outside of `bound`. -/
def firstUnbound? (a : Atom) (bound : List String) : Option String := a.varNames.find? (· ∉ bound)

end Atom

namespace Builtin

/-- How a builtin stands to the variables that are bound. -/
inductive Mode where
  /-- Every argument is bound. -/
  | check
  /-- The one unbound argument is a variable that the builtin computes. -/
  | bind (name : String)
  /-- The one unbound argument cannot be computed. -/
  | stuck (position : Nat)
  /-- More than one argument is unbound. -/
  | tooMany (count : Nat)
  deriving DecidableEq

/-- The mode of a builtin applied to the terms of `a` when the variables of `bound` have values. -/
def mode (b : Builtin) (a : Atom) (bound : List String) : Mode :=
  match a.unboundPositions bound with
  | [] => .check
  | [i] =>
    match a.terms[i]?.bind Term.varName? with
    | some x => if b.canBind i then .bind x else .stuck i
    | none => .stuck i
  | is => .tooMany is.length

end Builtin

/-- A positive builtin literal of a body. -/
abbrev BuiltinLiteral := Builtin × Atom

namespace Rule

/-- The positive builtin literals of the body. -/
def builtins (r : Rule) : List BuiltinLiteral :=
  r.positiveBody.filterMap fun l => l.builtin?.map (·, l.atom)

/-- The variables that the positive stored literals of the body bind. -/
def joinedVariables (r : Rule) : List String :=
  (r.body.filter Literal.isJoinable).flatMap Literal.varNames

end Rule

namespace Safety

/-- One pass over the builtins that still wait. A builtin that is ready is dropped, and what it
binds is bound for the builtins after it. -/
def pass (bound : List String) : List BuiltinLiteral → List String × List BuiltinLiteral
  | [] => (bound, [])
  | (b, a) :: rest =>
    match b.mode a bound with
    | .check => pass bound rest
    | .bind x => pass (x :: bound) rest
    | _ =>
      let (bound, waiting) := pass bound rest
      (bound, (b, a) :: waiting)

/-- At most `n` passes; a pass that drops no builtin is the last one. -/
def settle : Nat → List String → List BuiltinLiteral → List String × List BuiltinLiteral
  | 0, bound, waiting => (bound, waiting)
  | n + 1, bound, waiting =>
    let (bound', waiting') := pass bound waiting
    if waiting'.length < waiting.length then settle n bound' waiting' else (bound', waiting')

/-- The variables that the body binds, and the builtins that never become ready. -/
def bindings (r : Rule) : List String × List BuiltinLiteral :=
  settle (r.builtins.length + 1) r.joinedVariables r.builtins

/-- Why a builtin cannot be evaluated when the variables of `bound` have values. -/
def builtinFault (r : Rule) (b : Builtin) (a : Atom) (bound : List String) : EngineError :=
  match a.unboundPositions bound with
  | _ :: _ :: _ => .arity (.unboundInRule a r (a.unboundPositions bound).length)
  | is => .safety r (.cannotBind a (is.headD 0) b)

end Safety

namespace Rule

/-- The first variable of a negated literal outside of `bound`, with its atom. -/
def firstUnboundNegated? (r : Rule) (bound : List String) : Option (String × Atom) :=
  r.negatedBody.findSome? fun l => (l.atom.firstUnbound? bound).map (·, l.atom)

/-- Checks that the rule is safe. The first builtin that never becomes ready is reported before any
negated literal, and negated literals before the head. -/
def validate (r : Rule) : Except EngineError Unit :=
  match Safety.bindings r with
  | (bound, (b, a) :: _) => .error (Safety.builtinFault r b a bound)
  | (bound, []) =>
    match r.firstUnboundNegated? bound with
    | some (x, a) => .error (.safety r (.negatedVariable x a))
    | none =>
      match r.head.firstUnbound? bound with
      | some x => .error (.safety r (.headVariable x))
      | none => .ok ()

end Rule

/-- A list of rules. -/
abbrev Program := List Rule

/-- Checks every rule, in order. -/
def Program.validate (p : Program) : Except EngineError Unit := p.forM Rule.validate

end Datalog
