import Datalog.Data.SortedMap
import Datalog.Rule

/-!
# Evaluation contexts

A context says which rule is evaluated in which iteration of which stratum. Its flow id is appended
to names of sinks and of result directories.
-/

namespace Datalog

/-- One rule evaluation within the fixpoint of a stratum. -/
structure Context where
  stratum : Nat := 0
  iteration : Nat := 0
  rule : Nat := 0
  deriving DecidableEq, Inhabited

namespace Context

/-- The suffix for names, such as `_s0_i2_r1`. -/
def flowId (c : Context) : String :=
  "_s" ++ toString c.stratum ++ "_i" ++ toString c.iteration ++ "_r" ++ toString c.rule

/-- The text of a context. -/
def text (c : Context) : String :=
  "stratum " ++ toString c.stratum ++ " / iteration " ++ toString c.iteration ++ " / rule "
    ++ toString c.rule

end Context

/-- The number of facts of each predicate seen so far. -/
abbrev Counts := SortedMap Predicate Nat

namespace Counts

/-- The number of facts of a predicate, zero when it was never seen. -/
def of (c : Counts) (p : Predicate) : Nat := c.getD p 0

/-- Adds to the number of facts of a predicate. -/
def add (c : Counts) (p : Predicate) (n : Nat) : Counts := c.insert p (c.of p + n)

end Counts

end Datalog
