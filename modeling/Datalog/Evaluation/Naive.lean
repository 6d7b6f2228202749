import Datalog.Evaluation.Run

/-!
# Naive fixpoint

Every round calls every rule that the limits allow against all facts, in order. The run ends after a
round that added nothing, or when the limits allow no rule another evaluation.
-/

namespace Datalog.Naive

variable {σ τ : Type} [FactStore τ]

/-- The state within a round: the run, the rules called and the tuples added. -/
structure Round (σ τ : Type) where
  run : Run σ τ
  called : Nat := 0
  added : Nat := 0

/-- Calls one rule, unless the run has failed or the limits forbid it. -/
def visit (limits : Limits) (round : Nat) (s : Round σ τ) (rule : EvaluableRule σ × Nat) : Round σ τ :=
  let (rule, i) := rule
  if s.run.failure.isSome || !s.run.allows limits i then s
  else
    let (run, added) := s.run.perform rule ⟨i, ⟨s.run.report.stratum, round, i⟩, none⟩
    { run, called := s.called + 1, added := s.added + added.size }

/-- One round over the rules. -/
def round (limits : Limits) (rules : List (EvaluableRule σ)) (run : Run σ τ) : Round σ τ :=
  let s := rules.zipIdx.foldl (visit limits run.report.iterations) { run }
  if s.called = 0 || s.run.failure.isSome then s
  else { s with run := { s.run with report := s.run.report.countIteration } }

/-- Whether the run is over after a round. -/
def finished (limits : Limits) (rules : List (EvaluableRule σ)) (s : Round σ τ) : Bool :=
  s.run.failure.isSome || s.added == 0 || !(List.range rules.length).any fun i => s.run.allows limits i

/-- At most `fuel` rounds; no answer if they do not suffice. -/
def loop (limits : Limits) (rules : List (EvaluableRule σ)) : Nat → Run σ τ → Option (Run σ τ)
  | 0, _ => none
  | fuel + 1, run =>
    let s := round limits rules run
    if finished limits rules s then some s.run else loop limits rules fuel s.run

/-- Evaluates the rules of a stratum. -/
def evaluate (fuel : Nat) (limits : Limits) (stratum : Nat) (rules : List (EvaluableRule σ)) (store : τ)
    (env : σ) : Option (Run σ τ) := loop limits rules fuel (.start stratum rules.length store env)

end Datalog.Naive
