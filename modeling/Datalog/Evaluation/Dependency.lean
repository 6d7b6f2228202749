import Datalog.Evaluation.Run

/-!
# Dependency-aware fixpoint

A first round calls every rule against all facts. From then on only rules that read a predicate which
grew are called, for the new tuples alone. A rule that already waits gets further tuples added to
those it waits with, so it waits once; rules are served in the order in which they began to wait.
-/

namespace Datalog.Dependency

/-- The rules that wait, in the order in which they began to, each with the new tuples it waits with. -/
abbrev Worklist := List (Nat × Facts)

namespace Worklist

/-- Makes a rule wait with new tuples of a predicate. -/
def schedule (w : Worklist) (i : Nat) (p : Predicate) (added : Relation) : Worklist :=
  if w.any (·.1 == i) then w.map fun e => if e.1 = i then (i, e.2.add p added) else e
  else w ++ [(i, Facts.add ∅ p added)]

end Worklist

variable {σ τ : Type} [FactStore τ]

/-- Makes every rule that reads `head` and that the limits allow wait with the tuples just added. -/
def scheduleReaders (limits : Limits) (rules : List (EvaluableRule σ)) (run : Run σ τ) (head : Predicate)
    (added : Relation) (w : Worklist) : Worklist :=
  if added.isEmpty then w
  else
    rules.zipIdx.foldl (fun w (rule, i) =>
      if rule.reads.contains head && run.allows limits i then w.schedule i head added else w) w

/-- Calls a rule and makes the readers of its head wait. -/
def step (limits : Limits) (rules : List (EvaluableRule σ)) (rule : EvaluableRule σ) (c : Call)
    (s : Run σ τ × Worklist) : Run σ τ × Worklist :=
  let (run, added) := s.1.perform rule c
  if run.failure.isSome then (run, s.2) else (run, scheduleReaders limits rules run rule.head added s.2)

/-- Calls one rule against all facts, unless the run has failed or the limits forbid it. -/
def visit (limits : Limits) (rules : List (EvaluableRule σ)) (s : Run σ τ × Worklist)
    (rule : EvaluableRule σ × Nat) : Run σ τ × Worklist :=
  let (rule, i) := rule
  if s.1.failure.isSome || !s.1.allows limits i then s
  else step limits rules rule ⟨i, ⟨s.1.report.stratum, 0, i⟩, none⟩ s

/-- The first round. -/
def seed (limits : Limits) (rules : List (EvaluableRule σ)) (run : Run σ τ) : Run σ τ × Worklist :=
  let (run, w) := rules.zipIdx.foldl (visit limits rules) (run, [])
  if run.failure.isSome then (run, w) else ({ run with report := run.report.countIteration }, w)

/-- Calls waiting rules until none waits, at most `fuel` of them; no answer if that does not suffice. -/
def loop (limits : Limits) (rules : List (EvaluableRule σ)) : Nat → Run σ τ × Worklist → Option (Run σ τ)
  | fuel, (run, w) =>
    if run.failure.isSome then some run
    else
      match w, fuel with
      | [], _ => some run
      | _ :: _, 0 => none
      | (i, deltas) :: w, fuel + 1 =>
        match rules[i]? with
        | none => loop limits rules fuel (run, w)
        | some rule =>
          let iteration := run.report.iterations
          let run := { run with report := run.report.countIteration }
          loop limits rules fuel
            (step limits rules rule ⟨i, ⟨run.report.stratum, iteration, i⟩, some deltas⟩ (run, w))

/-- Evaluates the rules of a stratum. -/
def evaluate (fuel : Nat) (limits : Limits) (stratum : Nat) (rules : List (EvaluableRule σ)) (store : τ)
    (env : σ) : Option (Run σ τ) :=
  loop limits rules fuel (seed limits rules (.start stratum rules.length store env))

end Datalog.Dependency
