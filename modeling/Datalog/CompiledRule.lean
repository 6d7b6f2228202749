import Datalog.Context
import Datalog.Dataflow
import Datalog.Facts
import Datalog.Operator

/-!
# Compiled rules

A safe rule is compiled to the operators of its body literals, in body order, and of its head. To
evaluate it, the relation with one empty row is sent through the operators, one job each; as soon as
nothing is left the rule derives nothing. Given new tuples, the rule is evaluated once for each join
that has any, reading them in place of the stored facts at that join alone.
-/

namespace Datalog

/-- A rule with the operators that evaluate it. -/
structure CompiledRule where
  rule : Rule
  operators : List Operator

namespace Rule

/-- The operators of body literals, each over the columns that those before it leave. -/
def operatorsFrom (r : Rule) (schema : List String) : List Literal → Except EngineError (List Operator)
  | [] => do return [← Operator.ofHead r schema]
  | l :: ls => do
    let op ← Operator.ofLiteral r schema l
    return op :: (← r.operatorsFrom op.schema ls)

/-- The operators of a rule, without checking first that it is safe in any order. -/
def operators (r : Rule) : Except EngineError (List Operator) := r.operatorsFrom [] r.body

/-- Compiles a safe rule in its body order. -/
def compile (r : Rule) : Except EngineError CompiledRule := do
  r.validate
  return ⟨r, ← r.operators⟩

end Rule

namespace CompiledRule

/-- The predicate that the rule derives. -/
def head (c : CompiledRule) : Predicate := c.rule.headPredicate

/-- The predicates whose new tuples can make the rule derive more, in order of first appearance. -/
def reads (c : CompiledRule) : List Predicate := (c.operators.filterMap Operator.delta?).eraseDups

/-- The text of a compiled rule: its head and its operators. -/
def text (c : CompiledRule) : String :=
  c.rule.head.text ++ " => [" ++ ", ".intercalate (c.operators.map Operator.text) ++ "]"

/-- The rule and the plan of each operator. -/
def explain (c : CompiledRule) : String :=
  let step := fun ((op, i) : Operator × Nat) =>
    "[" ++ toString i ++ "] " ++ op.text ++ "\n" ++ op.plan.text
  c.rule.text ++ "\n" ++ String.join (c.operators.zipIdx.map step)

/-- New tuples that one operator, by number, reads in place of stored facts. -/
abbrev Delta := Nat × Relation

/-- The name of the sink of operator number `i`. -/
def sinkName (c : CompiledRule) (ctx : Context) (delta : Option Delta) (i : Nat) : String :=
  let suffix := match delta with
    | some (d, _) => "_d" ++ toString d
    | none => ""
  c.rule.head.predicate.symbol ++ ctx.flowId ++ suffix ++ "_o" ++ toString i

/-- The inputs of operator number `i`. -/
def sources (facts : Facts) (delta : Option Delta) (op : Operator) (i : Nat) (rows : Relation) :
    Sources :=
  let inputs : Sources := (∅ : Sources).insert Operator.running rows
  match op.source? with
  | none => inputs
  | some p =>
    let read := match delta with
      | some (d, tuples) => if d = i then tuples else facts.scan p
      | none => facts.scan p
    inputs.insert Operator.source read

/-- Sends the running relation through the operators, which are numbered. -/
def runFrom (c : CompiledRule) (ctx : Context) (facts : Facts) (delta : Option Delta) :
    List (Operator × Nat) → Relation → Engine → Except EngineError Relation × Engine
  | [], rows, engine => (.ok rows, engine)
  | (op, i) :: ops, rows, engine =>
    let job : Job := ⟨op.plan, sources facts delta op i rows, c.sinkName ctx delta i⟩
    match engine.run job with
    | .error e => (.error (.evaluation (op.text ++ " (" ++ ctx.text ++ ")") (.dataflow e)), engine)
    | .ok (rows, engine) =>
      if rows.isEmpty then (.ok ∅, engine) else c.runFrom ctx facts delta ops rows engine

/-- Runs the operators, starting from the relation with one empty row. -/
def run (c : CompiledRule) (ctx : Context) (facts : Facts) (delta : Option Delta) (engine : Engine) :
    Except EngineError Relation × Engine :=
  c.runFrom ctx facts delta c.operators.zipIdx Relation.seed engine

/-- The head tuples that follow from the facts. -/
def evaluate (c : CompiledRule) (ctx : Context) (facts : Facts) (engine : Engine) :
    Except EngineError Relation × Engine := c.run ctx facts none engine

/-- The operators that have new tuples, with them. -/
def deltaRuns (c : CompiledRule) (deltas : Facts) : List Delta :=
  c.operators.zipIdx.filterMap fun (op, i) => do
    let d ← deltas.get? (← op.delta?)
    if d.isEmpty then none else some (i, d)

/-- Runs the operators once for each of the given deltas and unites the results with `rows`. -/
def runDeltas (c : CompiledRule) (ctx : Context) (facts : Facts) :
    List Delta → Relation → Engine → Except EngineError Relation × Engine
  | [], rows, engine => (.ok rows, engine)
  | d :: ds, rows, engine =>
    match c.run ctx facts (some d) engine with
    | (.error e, engine) => (.error e, engine)
    | (.ok more, engine) => c.runDeltas ctx facts ds (rows.union more) engine

/-- The head tuples that follow from the facts with a new tuple at some join. -/
def evaluateDelta (c : CompiledRule) (ctx : Context) (facts deltas : Facts) (engine : Engine) :
    Except EngineError Relation × Engine := c.runDeltas ctx facts (c.deltaRuns deltas) ∅ engine

end CompiledRule

end Datalog
