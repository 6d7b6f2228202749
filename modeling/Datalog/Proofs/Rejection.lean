import Datalog.Proofs.CallByCall
import Datalog.Proofs.PerfectModel
import Datalog.Proofs.SafeOrders

/-!
# Refused programs

A program is refused with a safety, arity or stratification error. A run itself never fails in this
way: its calls fail with errors of their own. So a refusal comes either from the checks before any
evaluation, and then nothing has changed, or from the rules of a stratum that do not compile, and then
the strata below have been evaluated. The second only happens to a rule that is safe but written in an
order that cannot be followed, and that the planner leaves as it is; planned bodies compile
(`JoinPlanner.compile_plan`).
-/

namespace Datalog

/-- The errors with which a program is refused. -/
def EngineError.Refuses : EngineError → Prop
  | .stratification .. | .safety .. | .arity .. => True
  | _ => False

instance : DecidablePred EngineError.Refuses
  | .stratification .. | .safety .. | .arity .. => .isTrue trivial
  | .evaluation .. | .concurrentWrite .. | .setting .. => .isFalse id

/-! ### Runs do not refuse -/

namespace CompiledRule

variable {c : CompiledRule} {ctx : Context} {facts : Facts} {engine engine' : Engine} {e : EngineError}

theorem not_refuses_of_runFrom {delta : Option Delta} {ops : List (Operator × Nat)} {rows : Relation}
    (h : c.runFrom ctx facts delta ops rows engine = (.error e, engine')) : ¬e.Refuses := by
  induction ops generalizing rows engine with
  | nil => cases h
  | cons op ops ih =>
    obtain ⟨op, i⟩ := op
    rw [runFrom] at h
    split at h
    · cases h
      exact id
    · split at h
      · cases h
      · exact ih h

theorem not_refuses_of_runDeltas {ds : List Delta} {rows : Relation}
    (h : c.runDeltas ctx facts ds rows engine = (.error e, engine')) : ¬e.Refuses := by
  induction ds generalizing rows engine with
  | nil => cases h
  | cons d ds ih =>
    rw [runDeltas] at h
    split at h
    · next failed =>
      cases h
      exact not_refuses_of_runFrom failed
    · exact ih h

/-- A call of a compiled rule may fail, but it does not refuse the rule. -/
theorem not_refuses_of_call {deltas : Option Facts}
    (h : c.toEvaluable.call ctx deltas facts engine = (.error e, engine')) : ¬e.Refuses := by
  cases deltas with
  | none => exact not_refuses_of_runFrom h
  | some deltas => exact not_refuses_of_runDeltas h

end CompiledRule

/-- A run of compiled rules over facts in memory stays in memory and does not refuse. -/
theorem Strategy.not_refuses {strategy : Strategy} {fuel stratum : Nat} {limits : Limits}
    {compiled : List CompiledRule} {f : Facts} {engine : Engine} {run : Run Engine Store}
    (h : strategy.evaluate fuel limits stratum (compiled.map CompiledRule.toEvaluable) (.memory f)
      engine = some run) :
    (∃ f', run.store = .memory f') ∧ ∀ e, run.failure = some e → ¬e.Refuses := by
  refine Strategy.evaluate_keeps
    (P := fun run : Run Engine Store =>
      (∃ f', run.store = .memory f') ∧ ∀ e, run.failure = some e → ¬e.Refuses)
    ⟨⟨f, rfl⟩, fun e failed => nomatch failed⟩ ?_ (fun run kept => kept) h
  intro run rule call ok member kept
  obtain ⟨f', memory⟩ := kept.1
  obtain ⟨c, -, rfl⟩ : ∃ c ∈ compiled, c.toEvaluable = rule :=
    List.mem_map.1 (List.mem_of_getElem? member)
  unfold Run.perform
  dsimp only
  split
  · next e env failed =>
    refine ⟨⟨f', memory⟩, fun e' same => ?_⟩
    cases same
    exact CompiledRule.not_refuses_of_call failed
  · next output env answered =>
    obtain ⟨store, inserted, kind, -⟩ := Store.reliable run.store c.toEvaluable.head output ⟨f', memory⟩
    rw [inserted]
    refine ⟨kind, fun e failed => ?_⟩
    rw [ok] at failed
    cases failed

/-! ### Where a refusal comes from -/

/-- A function that may fail fails on a list because it fails on some member. -/
theorem exists_of_mapM_error {α β ε : Type} {f : α → Except ε β} {l : List α} {e : ε}
    (h : l.mapM f = .error e) : ∃ a ∈ l, f a = .error e := by
  induction l with
  | nil => cases h
  | cons a l ih =>
    rw [List.mapM_cons] at h
    cases first : f a with
    | error e' =>
      rw [first] at h
      cases h
      exact ⟨a, List.mem_cons_self, first⟩
    | ok b =>
      cases rest : l.mapM f with
      | error e' =>
        rw [first, rest] at h
        cases h
        obtain ⟨a', ha', failed⟩ := ih rest
        exact ⟨a', List.mem_cons_of_mem _ ha', failed⟩
      | ok bs =>
        rw [first, rest] at h
        cases h

namespace Reasoner

variable {r r' : Reasoner} {f : Facts} {e : EngineError} {fuel k : Nat}

/-- A stratum is refused before it is evaluated, because some rule of it does not compile. -/
theorem evaluateStratum_refused {rules : Program} (memory : r.store = .memory f)
    (h : r.evaluateStratum fuel k rules = some (.error e, r')) (refused : e.Refuses) :
    r' = r ∧ ∃ rule ∈ rules, r.compile rule = .error e := by
  unfold evaluateStratum at h
  cases mapped : rules.mapM r.compile with
  | error e' =>
    rw [mapped] at h
    cases h
    exact ⟨rfl, exists_of_mapM_error mapped⟩
  | ok compiled =>
    rw [mapped] at h
    obtain ⟨run, evaluated, h⟩ := Option.bind_eq_some_iff.1 h
    rw [memory] at evaluated
    obtain ⟨⟨f', memory'⟩, accepts⟩ := Strategy.not_refuses evaluated
    dsimp only at h
    split at h
    · next failed =>
      cases h
      exact absurd refused (accepts e failed)
    · obtain ⟨after, recorded, -⟩ :=
        recordDerived_memory (r := { r with store := run.store, engine := run.env }) memory'
          (resultContext k run.report.iterations rules) run.report.derived.toList
      rw [recorded] at h
      cases h

/-- A stratum over facts in memory that is evaluated leaves facts in memory, and the settings. -/
theorem evaluateStratum_memory {rules : Program} {report : Report} (memory : r.store = .memory f)
    (h : r.evaluateStratum fuel k rules = some (.ok report, r')) :
    (∃ f', r'.store = .memory f') ∧ r'.settings = r.settings := by
  obtain ⟨compiled, run, -, evaluated, -, after⟩ := run_of_evaluateStratum h
  rw [memory] at evaluated
  obtain ⟨⟨f', memory'⟩, -⟩ := Strategy.not_refuses evaluated
  exact ⟨⟨f', (after f' memory').1⟩, (after f' memory').2⟩

/-- Strata are refused when one of them comes up whose rules do not compile; those before it have been
evaluated. -/
theorem evaluateStrata_refused {strata : List (Program × Nat)} (memory : r.store = .memory f)
    (h : evaluateStrata fuel strata r = some (.error e, r')) (refused : e.Refuses) :
    ∃ below rules k above reports, strata = below ++ (rules, k) :: above ∧
      evaluateStrata fuel below r = some (.ok reports, r') ∧
      ∃ rule ∈ rules, r.compile rule = .error e := by
  induction strata generalizing r f with
  | nil => cases h
  | cons stratum strata ih =>
    obtain ⟨rules, k⟩ := stratum
    cases rules with
    | nil =>
      obtain ⟨below, rules, k', above, reports, split, evaluated, failing⟩ := ih memory h
      exact ⟨([], k) :: below, rules, k', above, reports, by rw [split]; rfl, evaluated, failing⟩
    | cons rule rules =>
      obtain ⟨⟨result, r₁⟩, evaluated, h⟩ := Option.bind_eq_some_iff.1 h
      cases result with
      | error e' =>
        cases h
        obtain ⟨same, failing⟩ := evaluateStratum_refused memory evaluated refused
        exact ⟨[], rule :: rules, k, strata, [], rfl, by rw [same]; rfl, failing⟩
      | ok report =>
        obtain ⟨⟨result, r₂⟩, others, h⟩ := Option.bind_eq_some_iff.1 h
        cases result with
        | ok reports => cases h
        | error e' =>
          cases h
          obtain ⟨⟨f', memory'⟩, settings⟩ := evaluateStratum_memory memory evaluated
          obtain ⟨below, rules', k', above, reports, split, below_ok, rule', member, failed⟩ :=
            ih memory' others
          refine ⟨(rule :: rules, k) :: below, rules', k', above, report :: reports,
            by rw [split]; rfl, ?_, rule', member, ?_⟩
          · simp [evaluateStrata, evaluated, below_ok, Except.map]
          · rw [← failed]
            simp only [compile, planner, settings]

/-- The program was refused at a stratum with a rule that does not compile as it is written and that
the planner does not reorder. The strata below it had been evaluated. -/
structure RefusedMidway (r : Reasoner) (fuel : Nat) (p : Program) (e : EngineError) (r' : Reasoner) :
    Prop where
  valid : p.validate = .ok ()
  layered : ∃ s below rules k above reports, p.stratify = .ok s ∧
    s.strata.zipIdx = below ++ (rules, k) :: above ∧
    evaluateStrata fuel below { r with counts := r.storedCounts } = some (.ok reports, r') ∧
    ∃ rule ∈ rules, rule ∈ p ∧ r.compile rule = .error e ∧ 1 < rule.body.length ∧
      ¬r.planner.Searches rule

/-- **What a refused program leaves.** When a reasoner over facts in memory refuses a program, either
nothing has changed, or a stratum was refused midway: the program passed the checks, and what is left
is what the strata below derived. With a planner that reorders every body of two or more literals, a
refused program changes nothing. -/
theorem evaluate_refused {p : Program} (memory : r.store = .memory f)
    (h : r.evaluate fuel p = some (.error e, r')) (refused : e.Refuses) :
    (r' = r ∧ (p.validate = .error e ∨ p.validate = .ok () ∧ p.stratify = .error e) ∨
      r.RefusedMidway fuel p e r') ∧
    ((∀ rule ∈ p, 1 < rule.body.length → r.planner.Searches rule) → r' = r) := by
  suffices cases_of : r' = r ∧ (p.validate = .error e ∨ p.validate = .ok () ∧ p.stratify = .error e) ∨
      r.RefusedMidway fuel p e r' by
    refine ⟨cases_of, fun searches => ?_⟩
    rcases cases_of with ⟨same, -⟩ | ⟨-, -, -, -, -, -, -, -, -, -, rule, -, member, -, several, given⟩
    · exact same
    · exact absurd (searches rule member several) given
  unfold evaluate at h
  cases valid : p.validate with
  | error e' =>
    rw [valid] at h
    cases h
    exact .inl ⟨rfl, .inl rfl⟩
  | ok u =>
    rw [valid] at h
    cases stratified : p.stratify with
    | error e' =>
      rw [stratified] at h
      cases h
      exact .inl ⟨rfl, .inr ⟨rfl, rfl⟩⟩
    | ok s =>
      rw [stratified] at h
      obtain ⟨⟨result, r₁⟩, evaluated, h⟩ := Option.bind_eq_some_iff.1 h
      cases result with
      | ok reports => cases h
      | error e' =>
        cases h
        obtain ⟨below, rules, k, above, reports, split, below_ok, rule, member, failed⟩ :=
          evaluateStrata_refused (r := { r with counts := r.storedCounts }) memory evaluated refused
        have listed : rule ∈ p := by
          have stratum : (rules, k) ∈ s.strata.zipIdx := by
            rw [split]
            exact List.mem_append_right _ List.mem_cons_self
          have at_k := List.mk_mem_zipIdx_iff_getElem?.1 stratum
          rw [Program.getElem?_strata stratified] at at_k
          split at at_k
          · cases at_k
            exact List.mem_of_mem_filter member
          · cases at_k
        have safe : rule.validate = .ok () := forM_eq_ok_iff.1 valid rule listed
        have unsearched : ¬(r.planner.Searches rule ∨ rule.body.length ≤ 1) := by
          intro searches
          obtain ⟨c, compiled⟩ := JoinPlanner.compile_plan safe searches
          have both : Except.error e = Except.ok c := failed.symm.trans compiled
          cases both
        rw [not_or, Nat.not_le] at unsearched
        exact .inr ⟨valid, s, below, rules, k, above, reports, stratified, split, below_ok, rule, member,
          listed, failed, unsearched.2, unsearched.1⟩

/-- A rule over a stored fact, and one above it whose first literal is not ready where it stands. -/
def lateRules : Program :=
  [⟨.ofVars "c" ["X"], [.pos (.ofVars "e" ["X"])]⟩,
    ⟨.ofVars "d" ["X"], [.pos (.new "LESS" [.var "X", .int 5]), .pos (.ofVars "e" ["X"]),
      .neg (.ofVars "c" ["X"])]⟩]

/-- A reasoner that keeps bodies as they are written. -/
def plainReasoner : Reasoner where
  settings := { evaluation := { reorderJoins := false } }
  strategy := .dependency
  store := .memory (Facts.ofList [(⟨"e", 1⟩, SortedSet.ofList [.ofInts [1]])])

/-- The second rule is refused midway: what the first derives is there. -/
theorem lateRules_refused_midway :
    plainReasoner.relation ⟨"c", 1⟩ = ∅ ∧
    ∃ e r', plainReasoner.evaluate 2 lateRules = some (.error e, r') ∧ e.Refuses ∧
      (r'.relation ⟨"c", 1⟩).toList = [Tuple.ofInts [1]] ∧
      plainReasoner.RefusedMidway 2 lateRules e r' := by
  have evaluated : ((plainReasoner.evaluate 2 lateRules).map fun answer =>
      (match answer.1 with
        | .error e => decide e.Refuses
        | .ok _ => false, (answer.2.relation ⟨"c", 1⟩).toList)) =
      some (true, [Tuple.ofInts [1]]) := by decide +kernel
  obtain ⟨⟨result, r'⟩, h, answered⟩ := Option.map_eq_some_iff.1 evaluated
  obtain ⟨refused, listed⟩ := Prod.mk.inj answered
  cases result with
  | ok report => cases refused
  | error e =>
    have refuses : e.Refuses := of_decide_eq_true refused
    have before : plainReasoner.relation ⟨"c", 1⟩ = ∅ := by decide +kernel
    refine ⟨before, e, r', h, refuses, listed, ?_⟩
    rcases (evaluate_refused (r := plainReasoner) rfl h refuses).1 with ⟨same, -⟩ | midway
    · rw [same, before] at listed
      cases listed
    · exact midway

end Reasoner

end Datalog
