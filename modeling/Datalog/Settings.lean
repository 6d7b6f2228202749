import Datalog.Storage.Store

/-!
# Settings

What can be chosen about a reasoner: where facts are kept, how rules are evaluated, and what is
logged. Every setting has a default.
-/

namespace Datalog

/-- Where facts are kept. -/
structure StorageSettings where
  /-- The project directory of a store that has one. -/
  projectDir : String := "./data/default"
  backend : Backend := .memory
  /-- The number of facts from which a symbol has a partition of its own. -/
  blockSize : Int64 := 1024
  deriving DecidableEq, Inhabited

/-- How rules are evaluated. -/
structure EvaluationSettings where
  /-- The name of the strategy, which need not be one. -/
  strategy : String := "dependency"
  /-- The most evaluations of a rule within one stratum; zero stands for any number. -/
  maxRuleEvaluations : Nat := 0
  /-- Whether bodies are reordered. -/
  reorderJoins : Bool := true
  /-- The most literals for which all orders are searched. -/
  maxJoinLiterals : Nat := 8
  /-- The number of workers; zero stands for one per processor. Results do not depend on it. -/
  workers : Nat := 0
  deriving DecidableEq, Inhabited

/-- What is logged. -/
structure LoggingSettings where
  level : String := "info"
  format : String := "text"
  /-- The file to log to, if not to the error output. -/
  file : Option String := none
  deriving DecidableEq, Inhabited

/-- All settings. -/
structure Settings where
  storage : StorageSettings := {}
  evaluation : EvaluationSettings := {}
  logging : LoggingSettings := {}
  deriving DecidableEq, Inhabited

/-- The defaults, with facts kept in a project directory. -/
def Settings.forProject (dir : String) : Settings :=
  { storage := { projectDir := dir, backend := .directory } }

end Datalog
