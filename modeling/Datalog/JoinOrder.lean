import Datalog.Safety

/-!
# Join order

The positive stored literals of a body are put in the order of highest score, where a step scores
its depth once for each variable it shares with the steps before it, and loses its depth when it
shares none. Every order is scored, and of several best ones the first in the order of body
positions is taken. Negated and builtin literals are then put in as early as their arguments allow.
-/

namespace Datalog

/-- How bodies are reordered. -/
structure JoinPlanner where
  /-- Whether bodies are reordered at all. -/
  reorder : Bool := true
  /-- The most positive stored literals for which all orders are searched. -/
  maxLiterals : Nat := 8
  deriving DecidableEq, Inhabited

/-- What a planning run found. -/
structure JoinPlan where
  rule : Rule
  literals : Nat
  paths : Nat
  inputScore : Int
  chosenScore : Int
  reordered : Bool

namespace JoinOrder

/-- The score of the step at `depth` that joins a literal with variables `vars`. -/
def stepScore (vars bound : List String) (depth : Nat) : Int :=
  let shared := vars.countP (· ∈ bound)
  if 0 < shared then (shared : Int) * depth else -(depth : Int)

/-- The score of joining literals in the given order, the first of them at `depth`. -/
def scoreFrom (depth : Nat) (bound : List String) : List Literal → Int
  | [] => 0
  | l :: ls =>
    stepScore l.varNames bound depth + scoreFrom (depth + 1) (bound ++ l.varNames) ls

/-- The score of joining literals in the given order. -/
def score (ls : List Literal) : Int := scoreFrom 1 [] ls

/-- Each member of a list with the list of the others. -/
def choices {α : Type} : List α → List (α × List α)
  | [] => []
  | a :: l => (a, l) :: (choices l).map fun (b, r) => (b, a :: r)

/-- Every order of `n` of the literals, by position, with its score. -/
def paths : Nat → Nat → List String → List Literal → List (List Literal × Int)
  | 0, _, _, _ => [([], 0)]
  | n + 1, depth, bound, ls =>
    (choices ls).flatMap fun (l, rest) =>
      let gain := stepScore l.varNames bound depth
      (paths n (depth + 1) (bound ++ l.varNames) rest).map fun (order, s) => (l :: order, gain + s)

/-- Every order of the literals, by position, with its score. -/
def allPaths (ls : List Literal) : List (List Literal × Int) := paths ls.length 1 [] ls

/-- The first entry with the highest score. -/
def best (start : List Literal × Int) (ps : List (List Literal × Int)) : List Literal × Int :=
  ps.foldl (fun b p => if b.2 < p.2 then p else b) start

/-- Whether a deferred literal can be evaluated when the variables of `bound` have values. -/
def placeable (l : Literal) (bound : List String) : Bool :=
  match l.positive, l.builtin? with
  | true, some b =>
    match b.mode l.atom bound with
    | .check | .bind _ => true
    | _ => false
  | _, _ => (l.atom.unboundPositions bound).isEmpty

/-- The first literal that can be placed, and the others. -/
def nextReady? (bound : List String) : List Literal → Option (Literal × List Literal)
  | [] => none
  | l :: ls =>
    if placeable l bound then some (l, ls) else (nextReady? bound ls).map fun (m, r) => (m, l :: r)

/-- What a literal binds once it stands in the body. -/
def bindings (l : Literal) : List String := if l.positive then l.varNames else []

/-- Takes at most `n` literals out of `pending`, each time the first that can be placed. The answer
lists them with the variables then bound and the literals left. -/
def placeReady : Nat → List String → List Literal → List Literal × List String × List Literal
  | 0, bound, pending => ([], bound, pending)
  | n + 1, bound, pending =>
    match nextReady? bound pending with
    | none => ([], bound, pending)
    | some (l, pending) =>
      let (placed, bound, pending) := placeReady n (bound ++ bindings l) pending
      (l :: placed, bound, pending)

/-- Puts the joins in order after what can be placed before them; literals that never can be placed
end the body. -/
def interleaveFrom (bound : List String) (pending : List Literal) : List Literal → List Literal
  | [] =>
    let (placed, _, pending) := placeReady pending.length bound pending
    placed ++ pending
  | l :: ls =>
    let (placed, bound, pending) := placeReady pending.length bound pending
    placed ++ l :: interleaveFrom (bound ++ l.varNames) pending ls

/-- Merges deferred literals into ordered joins, each as early as its arguments allow. -/
def interleave (ordered deferred : List Literal) : List Literal := interleaveFrom [] deferred ordered

end JoinOrder

namespace JoinPlanner

/-- Reorders the body of a rule and reports how the search went. -/
def run (planner : JoinPlanner) (r : Rule) : JoinPlan :=
  let (joinable, deferred) := r.body.partition Literal.isJoinable
  let input := JoinOrder.score joinable
  if !planner.reorder || r.body.length ≤ 1 || planner.maxLiterals < joinable.length then
    { rule := r, literals := joinable.length, paths := 0, inputScore := input, chosenScore := input,
      reordered := false }
  else
    let paths := JoinOrder.allPaths joinable
    let (order, chosen) := JoinOrder.best (paths.headD (joinable, input)) paths
    let body := JoinOrder.interleave order deferred
    { rule := { r with body := body }, literals := joinable.length, paths := paths.length,
      inputScore := input, chosenScore := chosen, reordered := body ≠ r.body }

/-- The rule with its body reordered. -/
def plan (planner : JoinPlanner) (r : Rule) : Rule := (planner.run r).rule

end JoinPlanner

end Datalog
