import Datalog.Evaluation.Dependency
import Datalog.Evaluation.Naive
import Datalog.Text.Lowercase

/-!
# Evaluation strategies

The two ways to bring the rules of a stratum to their fixpoint, and the names by which they are
chosen. Letter case does not matter in a name; an unknown name is reported in lower case.
-/

namespace Datalog

/-- How the rules of a stratum are brought to their fixpoint. -/
inductive Strategy where
  | naive
  | dependency
  deriving DecidableEq, Inhabited

namespace Strategy

/-- The name of a strategy. -/
def name : Strategy → String
  | .naive => "naive"
  | .dependency => "dependency"

/-- The strategy with the given name, in any letter case. -/
def ofName (name : String) : Except EngineError Strategy :=
  let name := Text.lower name
  if name = "naive" then .ok .naive
  else if name = "dependency" || name = "dependency_aware" then .ok .dependency
  else .error (.setting (.strategy name))

/-- Evaluates the rules of a stratum. The fuel bounds the rounds of the naive strategy and the
rescheduled calls of the other; there is no answer if it does not suffice. -/
def evaluate {σ τ : Type} [FactStore τ] (s : Strategy) (fuel : Nat) (limits : Limits) (stratum : Nat)
    (rules : List (EvaluableRule σ)) (store : τ) (env : σ) : Option (Run σ τ) :=
  match s with
  | .naive => Naive.evaluate fuel limits stratum rules store env
  | .dependency => Dependency.evaluate fuel limits stratum rules store env

end Strategy

end Datalog
