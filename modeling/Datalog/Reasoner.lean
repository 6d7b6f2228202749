import Datalog.Evaluation
import Datalog.JoinOrder
import Datalog.Settings
import Datalog.Stratification

/-!
# Reasoners

A reasoner holds a store and evaluates programs over it, stratum by stratum: a stratum reads what the
strata below it derived. A program that is unsafe or cannot be layered is refused before anything is
evaluated. What was derived before a failure stays in the store.
-/

namespace Datalog

/-- A store, the settings that programs are evaluated with, and the number of facts of each predicate
as of the last evaluation. -/
structure Reasoner where
  settings : Settings
  strategy : Strategy
  store : Store
  engine : Engine := {}
  counts : Counts := ∅

/-- What the evaluation of a program did, for each stratum that has rules. -/
structure ProgramReport where
  strata : List Report

namespace ProgramReport

/-- The number of tuples that were new. -/
def newFacts (r : ProgramReport) : Nat := r.strata.foldr (fun s n => s.newFacts + n) 0

/-- The number of rule evaluations. -/
def ruleEvaluations (r : ProgramReport) : Nat :=
  r.strata.foldr (fun s n => s.evaluations.foldr (· + ·) n) 0

end ProgramReport

namespace Reasoner

/-- Opens a reasoner. The tree is returned also when that fails. -/
def openFrom (settings : Settings) (files : FileTree) : Except EngineError Reasoner × FileTree :=
  match Strategy.ofName settings.evaluation.strategy with
  | .error e => (.error e, files)
  | .ok strategy =>
    let storage := settings.storage
    if storage.blockSize ≤ 0 then (.error (.setting (.blockSize storage.blockSize.toInt)), files)
    else
      match Store.openFrom storage.backend ⟨[storage.projectDir]⟩ storage.blockSize files with
      | (.error e, files) => (.error (.ofStore e), files)
      | (.ok store, files) => (.ok { settings, strategy, store }, files)

/-- The facts of a reasoner. -/
def facts (r : Reasoner) : Facts := r.store.facts

/-- How bodies are reordered. -/
def planner (r : Reasoner) : JoinPlanner :=
  ⟨r.settings.evaluation.reorderJoins, r.settings.evaluation.maxJoinLiterals⟩

/-- The limits of each stratum. -/
def limits (r : Reasoner) : Limits := ⟨r.settings.evaluation.maxRuleEvaluations⟩

/-- Imports a batch of facts. The answer is the number of new ones. -/
def importBatch (r : Reasoner) (batch : Facts) : Except EngineError Nat × Reasoner :=
  let (result, store) := r.store.importBatch batch
  (result.mapError .ofStore, { r with store })

/-- The batch of the heads of rules, all of which have to be ground facts. -/
def batchOf : Facts → List Rule → Except EngineError Facts
  | batch, [] => .ok batch
  | batch, f :: fs =>
    if f.isFact && f.head.isGround then
      batchOf (batch.add f.headPredicate (SortedSet.ofList [f.head.terms])) fs
    else .error (.safety f .openFact)

/-- Imports the heads of rules as one batch, if all of them are ground facts. -/
def importFacts (r : Reasoner) (fs : List Rule) : Except EngineError Nat × Reasoner :=
  match batchOf ∅ fs with
  | .error e => (.error e, r)
  | .ok batch => r.importBatch batch

/-- Compiles a rule after reordering its body. -/
def compile (r : Reasoner) (rule : Rule) : Except EngineError CompiledRule :=
  (r.planner.plan rule).compile

/-- The context under which what a stratum derived for a predicate is recorded: it names the first of
the rules for the predicate. -/
def resultContext (stratum iterations : Nat) (rules : Program) (p : Predicate) : Context :=
  ⟨stratum, iterations, (rules.findIdx? fun rule => rule.headPredicate = p).getD 0⟩

/-- Records what a stratum derived, predicate by predicate, and counts it. -/
def recordDerived (r : Reasoner) (context : Predicate → Context) :
    List (Predicate × Relation) → Except EngineError Unit × Reasoner
  | [] => (.ok (), r)
  | (p, derived) :: rest =>
    match r.store.recordResult p.symbol (context p) derived with
    | (.error e, store) => (.error (.ofStore e), { r with store })
    | (.ok _, store) =>
      recordDerived { r with store, counts := r.counts.add p derived.size } context rest

/-- Evaluates the rules of one stratum and records what they derive. -/
def evaluateStratum (r : Reasoner) (fuel stratum : Nat) (rules : Program) :
    Option (Except EngineError Report × Reasoner) :=
  match rules.mapM r.compile with
  | .error e => some (.error e, r)
  | .ok compiled => do
    let run ← r.strategy.evaluate fuel r.limits stratum (compiled.map CompiledRule.toEvaluable)
      r.store r.engine
    let r := { r with store := run.store, engine := run.env }
    match run.failure with
    | some e => return (.error e, r)
    | none =>
      let context := resultContext stratum run.report.iterations rules
      let (result, r) := r.recordDerived context run.report.derived.toList
      return (result.map fun _ => run.report, r)

/-- Evaluates numbered strata one after the other; those without rules are passed over. -/
def evaluateStrata (fuel : Nat) :
    List (Program × Nat) → Reasoner → Option (Except EngineError (List Report) × Reasoner)
  | [], r => some (.ok [], r)
  | ([], _) :: rest, r => evaluateStrata fuel rest r
  | (rules, stratum) :: rest, r => do
    match ← r.evaluateStratum fuel stratum rules with
    | (.error e, r) => return (.error e, r)
    | (.ok report, r) =>
      let (result, r) ← evaluateStrata fuel rest r
      return (result.map (report :: ·), r)

/-- The number of facts of every predicate of the store. -/
def storedCounts (r : Reasoner) : Counts := r.facts.map fun _ rel => rel.size

/-- Evaluates a program. There is no answer if the fuel does not suffice for some stratum. -/
def evaluate (r : Reasoner) (fuel : Nat) (p : Program) :
    Option (Except EngineError ProgramReport × Reasoner) :=
  match p.validate with
  | .error e => some (.error e, r)
  | .ok () =>
    match p.stratify with
    | .error e => some (.error e, r)
    | .ok s => do
      let r := { r with counts := r.storedCounts }
      let (result, r) ← evaluateStrata fuel s.strata.zipIdx r
      return (result.map ProgramReport.mk, r)

/-- The head symbol of the rule that answers a query. -/
def querySymbol : String := "__query"

/-- The rule that answers a query. -/
def queryRule (a : Atom) : Rule := ⟨.new querySymbol a.terms, [.pos a]⟩

/-- The tuples of the store that match an atom. -/
def query (r : Reasoner) (a : Atom) : Except EngineError Relation × Reasoner :=
  match (queryRule a).compile with
  | .error e => (.error e, r)
  | .ok c =>
    let (result, engine) := c.evaluate {} r.facts r.engine
    (result, { r with engine })

/-- The stored tuples of a predicate. -/
def relation (r : Reasoner) (p : Predicate) : Relation := r.facts.scan p

end Reasoner

end Datalog
