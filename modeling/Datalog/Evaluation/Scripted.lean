import Datalog.Evaluation.Run

/-!
# Scripted rules

Rules that answer by the number of the call alone, whatever the facts are. They make the scheduling
of a strategy visible: which rule is called when, and with which new tuples.
-/

namespace Datalog

/-- What a scripted rule answers. -/
structure Script where
  head : String
  body : List String
  /-- From this call on the rule derives nothing. -/
  stopAt : Nat
  /-- The call that fails. -/
  failAt : Option Nat := none
  /-- Whether every call derives the tuple of the first one. -/
  same : Bool := false

namespace Script

/-- The predicate of a symbol: scripted predicates have two columns. -/
def predicate (symbol : String) : Predicate := ⟨symbol, 2⟩

/-- The answer to call number `n`, counted from one. -/
def answer (s : Script) (ctx : Context) (n : Nat) : Except EngineError Relation :=
  if s.failAt = some n then .error (.evaluation ctx.text (.other "scripted failure"))
  else if s.stopAt ≤ n then .ok ∅
  else .ok (SortedSet.singleton [.str s.head, .int (Int64.ofNat (if s.same then 1 else n))])

/-- The rule numbered `i`. The state holds how often each rule was called. -/
def toEvaluable (s : Script) (i : Nat) : EvaluableRule (List Nat) where
  head := predicate s.head
  reads := s.body.map predicate
  call ctx _ _ counts :=
    let n := counts[i]?.getD 0 + 1
    (s.answer ctx n, counts.set i n)

/-- The rules of a list of scripts. -/
def rules (scripts : List Script) : List (EvaluableRule (List Nat)) :=
  scripts.zipIdx.map fun (s, i) => s.toEvaluable i

end Script

end Datalog
