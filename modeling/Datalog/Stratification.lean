import Datalog.Data.SortedMap
import Datalog.Safety

/-!
# Stratification

Every body literal of a rule makes the head depend on the literal's predicate. A stratification
gives every predicate a number such that a head is at least as high as what it asserts and strictly
above what it negates. It is found by raising heads, dependency by dependency, until nothing has to
be raised; a program whose predicates cannot be layered would raise some head beyond the number of
its rules, and is refused.
-/

namespace Datalog

/-- The head predicate of a rule depends on the predicate of a body literal. -/
structure Dependency where
  head : Predicate
  body : Predicate
  negated : Bool
  deriving DecidableEq

namespace Dependency

/-- The text of a dependency: `h/1 + b/1`, or `h/1 - b/1` for a negated literal. -/
def text (d : Dependency) : String :=
  d.head.text ++ (if d.negated then " - " else " + ") ++ d.body.text

/-- The least stratum of the head when the body predicate has stratum `n`. -/
def required (d : Dependency) (n : Nat) : Nat := if d.negated then n + 1 else n

end Dependency

namespace Program

/-- The dependencies of a program, by rule and by body literal. -/
def dependencies (p : Program) : List Dependency :=
  p.flatMap fun r => r.body.map fun l => ⟨r.headPredicate, l.predicate, !l.positive⟩

/-- The heads that depend on a predicate, in order of first appearance. -/
def dependents (p : Program) (q : Predicate) : List Predicate :=
  ((p.dependencies.filter fun d => d.body = q).map Dependency.head).eraseDups

/-- The predicates that the rules for a head negate, one for each negated literal. -/
def negatedBy (p : Program) (h : Predicate) : List Predicate :=
  (p.dependencies.filter fun d => d.negated && d.head = h).map Dependency.body

end Program

/-- A number for every predicate; one without an entry has number 0. -/
abbrev StratumMap := SortedMap Predicate Nat

namespace StratumMap

/-- The stratum of a predicate. -/
def of (m : StratumMap) (p : Predicate) : Nat := m.getD p 0

/-- Raises the head of a dependency to what the dependency requires. The head gets an entry in any
case; the answer says whether it was raised. -/
def relax (m : StratumMap) (d : Dependency) : StratumMap × Bool :=
  let need := d.required (m.of d.body)
  if m.of d.head < need then (m.insert d.head need, true) else (m.insert d.head (m.of d.head), false)

/-- One pass over the dependencies. Raising a head beyond `bound` ends the search. -/
def pass (bound : Nat) : StratumMap → List Dependency → Except EngineError (StratumMap × Bool)
  | m, [] => .ok (m, false)
  | m, d :: ds =>
    match m.relax d with
    | (m, false) => pass bound m ds
    | (m, true) =>
      if bound < m.of d.head then .error (.stratification d.head (m.of d.head) bound)
      else do
        let (m, _) ← pass bound m ds
        return (m, true)

/-- The highest entry; of several the one with the least predicate. -/
def highest? (m : StratumMap) : Option (Predicate × Nat) :=
  m.toList.foldl (fun best e =>
    match best with
    | none => some e
    | some b => if b.2 < e.2 then some e else some b) none

/-- At most `n` passes, until one raises nothing. -/
def settle (bound : Nat) (ds : List Dependency) : Nat → StratumMap → Except EngineError StratumMap
  | 0, m =>
    let (p, n) := m.highest?.getD (⟨"", 0⟩, 0)
    .error (.stratification p n bound)
  | n + 1, m => do
    let (m, raised) ← pass bound m ds
    if raised then settle bound ds n m else return m

end StratumMap

/-- The strata of a program: the stratum of every predicate, and the rules of each stratum. -/
structure Stratification where
  strata : List Program
  stratumOf : Predicate → Nat

/-- Layers a program. Stratum `k` holds the rules whose head has stratum `k`, in program order, up to
the highest head. -/
def Program.stratify (p : Program) : Except EngineError Stratification := do
  let m ← StratumMap.settle p.length p.dependencies (p.length + 1) ∅
  let height := match p with
    | [] => 0
    | _ => (p.map fun r => m.of r.headPredicate).foldl max 0 + 1
  return {
    strata := (List.range height).map fun k => p.filter fun r => m.of r.headPredicate = k
    stratumOf := m.of }

end Datalog
