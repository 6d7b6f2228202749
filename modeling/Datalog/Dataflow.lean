import Datalog.Plan

/-!
# Dataflow jobs

A job is a plan with its input relations and the name of a sink. The engine refuses a job whose keys
do not pair up or whose inputs are missing or of another arity; otherwise it leaves the rows that the
plan denotes in the sink, from where they are taken once.
-/

namespace Datalog

/-- A plan with its inputs and the name for its result. -/
structure Job where
  plan : Plan
  sources : Sources
  sink : String

namespace Plan

/-- Checks that the keys of every join and antijoin pair up, from the root down. -/
def checkKeys : Plan → Except DataflowError Unit
  | .input _ _ => .ok ()
  | .filter p _ => p.checkKeys
  | .unify p _ => p.checkKeys
  | .builtin p _ => p.checkKeys
  | .substitute p _ => p.checkKeys
  | .join l r lk rk _ =>
    if lk.length ≠ rk.length then .error (.keyLengths lk rk)
    else do
      l.checkKeys
      r.checkKeys
  | .antijoin l r lk rk =>
    if lk.length ≠ rk.length then .error (.keyLengths lk rk)
    else do
      l.checkKeys
      r.checkKeys

end Plan

/-- Checks that an input is given and that its tuples have the arity expected. -/
def Sources.checkInput (sources : Sources) (name : String) (arity : Nat) : Except DataflowError Unit :=
  match sources.get? name with
  | none => .error (.unknownBinding name)
  | some r =>
    match r.toList.find? fun t => t.length ≠ arity with
    | some t => .error (.arityMismatch name arity t.length)
    | none => .ok ()

namespace Job

/-- Checks a job: first the keys, then the inputs in order of first appearance. -/
def validate (job : Job) : Except DataflowError Unit := do
  job.plan.checkKeys
  job.plan.inputs.forM fun (name, arity) => job.sources.checkInput name arity

/-- The rows that the plan of a job denotes. -/
def rows (job : Job) : Relation := job.plan.rows job.sources

end Job

/-- The sinks that were written and not yet read. -/
structure Engine where
  sinks : SortedMap String Relation := ∅
  deriving Inhabited

namespace Engine

/-- The number of sinks not yet read. -/
def pending (e : Engine) : Nat := e.sinks.size

/-- Runs a job into its sink, replacing what was there. -/
def submit (e : Engine) (job : Job) : Except DataflowError Engine := do
  job.validate
  return { e with sinks := e.sinks.insert job.sink job.rows }

/-- Takes the rows out of a sink. -/
def take (e : Engine) (sink : String) : Except DataflowError (Relation × Engine) :=
  match e.sinks.get? sink with
  | none => .error (.unknownSink sink)
  | some r => .ok (r, { e with sinks := e.sinks.erase sink })

/-- Runs a job and takes its rows. -/
def run (e : Engine) (job : Job) : Except DataflowError (Relation × Engine) := do
  (← e.submit job).take job.sink

end Engine

end Datalog
