import Datalog.CompiledRule

/-!
# Runs of a stratum

Both fixpoint strategies call rules one at a time and put what a call returns into the store before
the next call. A `Run` is the state between two calls: the store, the report so far, and every call
that was made, in order. A call that fails ends the run.
-/

namespace Datalog

/-- One evaluation of one rule: against all facts, or for new tuples only. -/
structure Call where
  rule : Nat
  context : Context
  deltas : Option Facts

/-- A rule as the strategies see it. What a call returns may depend on a state `σ` that calls pass on. -/
structure EvaluableRule (σ : Type) where
  /-- The predicate that the rule derives. -/
  head : Predicate
  /-- The predicates whose new tuples can make the rule derive more. -/
  reads : List Predicate
  /-- Evaluates the rule on the facts, for new tuples only if some are given. -/
  call : Context → Option Facts → Facts → σ → Except EngineError Relation × σ

/-- A compiled rule runs its jobs on an engine. -/
def CompiledRule.toEvaluable (c : CompiledRule) : EvaluableRule Engine where
  head := c.head
  reads := c.reads
  call ctx deltas facts engine :=
    match deltas with
    | none => c.evaluate ctx facts engine
    | some deltas => c.evaluateDelta ctx facts deltas engine

/-- The number of evaluations that a rule may have in a run; zero stands for any number. -/
structure Limits where
  maxEvaluations : Nat := 0

/-- Whether a rule with this many evaluations may have another. -/
def Limits.allows (l : Limits) (evaluations : Nat) : Bool :=
  l.maxEvaluations == 0 || evaluations < l.maxEvaluations

/-- What a run did. -/
structure Report where
  stratum : Nat
  /-- The number of evaluations of each rule. -/
  evaluations : List Nat
  /-- The number of rounds or of scheduling steps. -/
  iterations : Nat := 0
  /-- The number of tuples that were new. -/
  newFacts : Nat := 0
  /-- The new tuples of each head predicate that got any. -/
  derived : Facts := ∅

namespace Report

/-- The report of a run that has not started. -/
def start (stratum rules : Nat) : Report := { stratum, evaluations := List.replicate rules 0 }

/-- The number of evaluations of a rule. -/
def evaluationsOf (r : Report) (rule : Nat) : Nat := r.evaluations[rule]?.getD 0

/-- Counts one evaluation of a rule. -/
def countEvaluation (r : Report) (rule : Nat) : Report :=
  { r with evaluations := r.evaluations.modify rule (· + 1) }

/-- Counts one iteration. -/
def countIteration (r : Report) : Report := { r with iterations := r.iterations + 1 }

/-- Accounts for the new tuples of a predicate. -/
def absorb (r : Report) (head : Predicate) (added : Relation) : Report :=
  { r with
    newFacts := r.newFacts + added.size
    derived := if added.isEmpty then r.derived else r.derived.add head added }

end Report

/-- The state of a run between two calls. -/
structure Run (σ τ : Type) where
  store : τ
  env : σ
  report : Report
  calls : List Call := []
  failure : Option EngineError := none

namespace Run

variable {σ τ : Type} [FactStore τ]

/-- A run that has not started. -/
def start (stratum rules : Nat) (store : τ) (env : σ) : Run σ τ :=
  { store, env, report := .start stratum rules }

/-- Makes a call and puts what it returns into the store. The answer holds the tuples that were new.
The evaluation is counted once the rule has answered. -/
def perform (run : Run σ τ) (rule : EvaluableRule σ) (c : Call) : Run σ τ × Relation :=
  let calls := run.calls ++ [c]
  match rule.call c.context c.deltas (FactStore.facts run.store) run.env with
  | (.error e, env) => ({ run with env, calls, failure := some e }, ∅)
  | (.ok output, env) =>
    let report := run.report.countEvaluation c.rule
    match FactStore.insert run.store rule.head output with
    | (.error e, store) => ({ run with store, env, report, calls, failure := some (.ofStore e) }, ∅)
    | (.ok added, store) =>
      ({ run with store, env, calls, report := report.absorb rule.head added }, added)

/-- Whether the limits allow rule number `i` another evaluation. -/
def allows (run : Run σ τ) (limits : Limits) (i : Nat) : Bool := limits.allows (run.report.evaluationsOf i)

end Run

end Datalog
