import Datalog.Proofs.CallByCall
import Datalog.Proofs.PerfectModel

/-!
# Evaluating a program again adds nothing

A run over facts that already have all that its rules return calls every rule once, adds nothing, and
ends (`Strategy.evaluate_quiet`). The first evaluation of a program leaves such facts for every stratum,
though strata above have added to them since: what a rule reads or negates lies no higher than its head,
and no stratum adds to the predicates below it (`Reasoner.finished_of_evaluateStrata`).
-/

namespace Datalog

/-! ### Quiet runs -/

namespace Report

/-- The report of a run that called each of its rules once and found nothing new. -/
def quiet (stratum rules : Nat) : Report :=
  { stratum, evaluations := List.replicate rules 1, iterations := 1 }

/-- The report once the first `k` of the rules were called and returned nothing new. -/
def quietUpTo (stratum rules k : Nat) : Report :=
  { stratum, evaluations := List.replicate k 1 ++ List.replicate (rules - k) 0 }

theorem countIteration_quietUpTo (stratum rules : Nat) :
    (quietUpTo stratum rules rules).countIteration = quiet stratum rules := by
  simp [quietUpTo, countIteration, quiet]

theorem quietUpTo_succ {stratum rules k : Nat} (inside : k < rules) (head : Predicate) :
    ((quietUpTo stratum rules k).countEvaluation k).absorb head ∅ = quietUpTo stratum rules (k + 1) := by
  have counted : (List.replicate k 1 ++ List.replicate (rules - k) 0).modify k (· + 1) =
      List.replicate (k + 1) 1 ++ List.replicate (rules - (k + 1)) 0 := by
    refine List.ext_getElem? fun i => ?_
    grind
  rw [quietUpTo, countEvaluation]
  dsimp only
  rw [counted]
  rfl

end Report

section Strategies

variable {σ τ : Type} [FactStore τ] {Kind : τ → Prop} {Good : Facts → Prop}
  {rules : List (EvaluableRule σ)} {init : Facts} {limits : Limits} {stratum k : Nat}

/-- A run that has not changed its facts, with what it has reported. -/
structure Run.Quiet (Kind : τ → Prop) (Good : Facts → Prop) (init : Facts) (report : Report)
    (run : Run σ τ) : Prop where
  kind : Kind run.store
  good : Good run.facts
  same : run.facts.model = init.model
  failure : run.failure = none
  report : run.report = report

theorem Run.Quiet.countIteration {report : Report} {run : Run σ τ}
    (quiet : run.Quiet Kind Good init report) :
    Quiet Kind Good init report.countIteration { run with report := run.report.countIteration } :=
  ⟨quiet.kind, quiet.good, quiet.same, quiet.failure, congrArg Report.countIteration quiet.report⟩

/-- No rule is passed over in a quiet run without a limit. -/
theorem Run.Quiet.passes_none {report : Report} {run : Run σ τ} (quiet : run.Quiet Kind Good init report)
    (unlimited : limits.maxEvaluations = 0) (i : Nat) :
    (run.failure.isSome || !run.allows limits i) = false := by
  rw [quiet.failure, Run.allows, Limits.allows_of_unlimited unlimited]
  rfl

/-- On the facts, the rule answers, and with nothing that they lack. -/
structure EvaluableRule.SaturatedOn (Good : Facts → Prop) (init : Facts) (rule : EvaluableRule σ) :
    Prop where
  incremental : rule.Incremental Good
  good : Good init
  saturated : ∃ out, rule.Answers init out ∧ ∀ t ∈ out, t ∈ init.scan rule.head

/-- Calling the next rule adds nothing. -/
theorem Run.Quiet.perform (reliable : FactStore.Reliable Kind) {run : Run σ τ} {n : Nat}
    (quiet : run.Quiet Kind Good init (.quietUpTo stratum n k)) (inside : k < n)
    {rule : EvaluableRule σ} (settled : rule.SaturatedOn Good init) (ctx : Context) :
    (run.perform rule ⟨k, ctx, none⟩).1.Quiet Kind Good init (.quietUpTo stratum n (k + 1)) ∧
      (run.perform rule ⟨k, ctx, none⟩).2 = ∅ := by
  obtain ⟨out, answers, listed⟩ := settled.saturated
  -- The facts may list more predicates than the first ones, but the rule sees the same tuples.
  obtain ⟨env, answer⟩ := settled.incremental.local_reads _ _ settled.good quiet.good
    (fun p _ => by rw [quiet.same]) out answers ctx run.env
  obtain ⟨store, kind, grown, performed⟩ :=
    Run.perform_of_answer reliable quiet.kind (c := ⟨k, ctx, none⟩) answer
  have stored : ∀ t ∈ out, t ∈ run.facts.scan rule.head := by
    rw [Facts.scan_eq_of_model_eq (congrFun quiet.same rule.head)]
    exact listed
  have nothing : out.diff (run.facts.scan rule.head) = ∅ := by
    refine SortedSet.ext_mem fun t => iff_of_false (fun ht => ?_) SortedSet.not_mem_empty
    obtain ⟨returned, new⟩ := SortedSet.mem_diff.1 ht
    exact new (stored t returned)
  rw [performed, nothing]
  refine ⟨⟨kind, ?_, ?_, quiet.failure, ?_⟩, rfl⟩
  · show Good (FactStore.facts store)
    rw [grown]
    exact settled.incremental.keeps _ quiet.good out
  · show (FactStore.facts store).model = init.model
    rw [grown, ← quiet.same]
    exact le_antisymm (Facts.model_add_le le_rfl stored) (Facts.model_le_add _ _ _)
  · show (run.report.countEvaluation k).absorb rule.head ∅ = _
    rw [quiet.report]
    exact Report.quietUpTo_succ inside rule.head

namespace Naive

/-- The first `k` rules of a round were called, and nothing was new. -/
structure Round.Quiet (Kind : τ → Prop) (Good : Facts → Prop) (init : Facts) (stratum rules k : Nat)
    (s : Round σ τ) : Prop where
  run : s.run.Quiet Kind Good init (.quietUpTo stratum rules k)
  called : s.called = k
  added : s.added = 0

theorem Round.Quiet.visit (reliable : FactStore.Reliable Kind) (unlimited : limits.maxEvaluations = 0)
    {s : Round σ τ} {n : Nat} (quiet : s.Quiet Kind Good init stratum n k) (inside : k < n)
    {rule : EvaluableRule σ} (settled : rule.SaturatedOn Good init) (round : Nat) :
    (visit limits round s (rule, k)).Quiet Kind Good init stratum n (k + 1) := by
  obtain ⟨next, nothing⟩ :=
    quiet.run.perform reliable inside settled ⟨s.run.report.stratum, round, k⟩
  unfold Naive.visit
  simp only [quiet.run.passes_none unlimited, Bool.false_eq_true, if_false, nothing]
  exact ⟨next, congrArg (· + 1) quiet.called, quiet.added⟩

/-- A round that finds nothing new is the last one. -/
theorem loop_quiet (reliable : FactStore.Reliable Kind) (unlimited : limits.maxEvaluations = 0)
    (settled : ∀ rule ∈ rules, rule.SaturatedOn Good init) (nonempty : rules ≠ []) {run : Run σ τ}
    (quiet : run.Quiet Kind Good init (.quietUpTo stratum rules.length 0)) (fuel : Nat) :
    ∃ run', loop limits rules (fuel + 1) run = some run' ∧
      run'.Quiet Kind Good init (.quiet stratum rules.length) := by
  let s := rules.zipIdx.foldl (visit limits run.report.iterations) { run }
  have visited : s.Quiet Kind Good init stratum rules.length rules.length := by
    refine foldl_zipIdx_keeps (F := fun k (s : Round σ τ) => s.Quiet Kind Good init stratum rules.length k)
      (fun k rule s member kept => ?_) ⟨quiet, rfl, rfl⟩
    obtain ⟨inside, -⟩ := List.getElem?_eq_some_iff.1 member
    exact kept.visit reliable unlimited inside (settled rule (List.mem_of_getElem? member)) _
  have counts : ¬(s.called = 0 || s.run.failure.isSome) = true := by
    rw [visited.called, visited.run.failure]
    simpa using nonempty
  have rounded : Naive.round limits rules run =
      { s with run := { s.run with report := s.run.report.countIteration } } := if_neg counts
  have ended : finished limits rules (Naive.round limits rules run) = true := by
    rw [rounded, finished, visited.added]
    simp
  refine ⟨(Naive.round limits rules run).run, ?_, ?_⟩
  · rw [loop, if_pos ended]
  · rw [rounded, ← Report.countIteration_quietUpTo]
    exact visited.run.countIteration

end Naive

namespace Dependency

/-- A visit that finds nothing new makes nobody wait. -/
theorem visit_quiet (reliable : FactStore.Reliable Kind) (unlimited : limits.maxEvaluations = 0)
    {run : Run σ τ} {n : Nat} (quiet : run.Quiet Kind Good init (.quietUpTo stratum n k))
    (inside : k < n) {rule : EvaluableRule σ} (settled : rule.SaturatedOn Good init) :
    ∃ run', visit limits rules (run, []) (rule, k) = (run', []) ∧
      run'.Quiet Kind Good init (.quietUpTo stratum n (k + 1)) := by
  obtain ⟨next, nothing⟩ := quiet.perform reliable inside settled ⟨run.report.stratum, 0, k⟩
  refine ⟨_, ?_, next⟩
  unfold visit step
  simp only [quiet.passes_none unlimited, Bool.false_eq_true, if_false, next.failure, Option.isSome_none,
    nothing]
  rfl

/-- After a first round that finds nothing new, nobody waits. -/
theorem loop_seed_quiet (reliable : FactStore.Reliable Kind) (unlimited : limits.maxEvaluations = 0)
    (settled : ∀ rule ∈ rules, rule.SaturatedOn Good init) {run : Run σ τ}
    (quiet : run.Quiet Kind Good init (.quietUpTo stratum rules.length 0)) (fuel : Nat) :
    ∃ run', loop limits rules fuel (seed limits rules run) = some run' ∧
      run'.Quiet Kind Good init (.quiet stratum rules.length) := by
  obtain ⟨last, visited, quiet'⟩ : ∃ last, rules.zipIdx.foldl (visit limits rules) (run, []) = (last, []) ∧
      last.Quiet Kind Good init (.quietUpTo stratum rules.length rules.length) := by
    refine foldl_zipIdx_keeps (F := fun k (s : Run σ τ × Worklist) =>
      ∃ last, s = (last, []) ∧ last.Quiet Kind Good init (.quietUpTo stratum rules.length k))
      (fun k rule s member kept => ?_) ⟨run, rfl, quiet⟩
    obtain ⟨last, rfl, kept⟩ := kept
    obtain ⟨inside, -⟩ := List.getElem?_eq_some_iff.1 member
    exact visit_quiet reliable unlimited kept inside (settled rule (List.mem_of_getElem? member))
  have counted := quiet'.countIteration
  rw [Report.countIteration_quietUpTo] at counted
  have ok : ¬last.failure.isSome = true := by
    rw [quiet'.failure]
    exact Bool.false_ne_true
  refine ⟨_, ?_, counted⟩
  rw [seed_eq, visited]
  dsimp only
  rw [if_neg ok]
  exact loop_nil counted.failure fuel

end Dependency

/-- **On facts that have all that the rules return, a run of either strategy calls every rule once and
adds nothing.** -/
theorem Strategy.evaluate_quiet (reliable : FactStore.Reliable Kind)
    (unlimited : limits.maxEvaluations = 0) {store : τ} (kind : Kind store)
    (settled : ∀ rule ∈ rules, rule.SaturatedOn Good (FactStore.facts store)) (nonempty : rules ≠ [])
    (strategy : Strategy) (fuel stratum : Nat) (env : σ) :
    ∃ run, strategy.evaluate (fuel + 1) limits stratum rules store env = some run ∧
      run.Quiet Kind Good (FactStore.facts store) (.quiet stratum rules.length) := by
  obtain ⟨rule, member⟩ := List.exists_mem_of_ne_nil rules nonempty
  have start : (Run.start stratum rules.length store env).Quiet Kind Good (FactStore.facts store)
      (.quietUpTo stratum rules.length 0) := ⟨kind, (settled rule member).good, rfl, rfl, rfl⟩
  cases strategy with
  | naive => exact Naive.loop_quiet reliable unlimited settled nonempty start fuel
  | dependency => exact Dependency.loop_seed_quiet reliable unlimited settled start (fuel + 1)

end Strategies

/-! ### What an evaluation leaves -/

/-- A function that answers on every member of a list answers on the list. -/
theorem mapM_of_forall {α β ε : Type} {f : α → Except ε β} {l : List α}
    (answers : ∀ a ∈ l, ∃ b, f a = .ok b) : ∃ bs, l.mapM f = .ok bs ∧ bs.length = l.length := by
  induction l with
  | nil => exact ⟨[], rfl, rfl⟩
  | cons a l ih =>
    obtain ⟨⟨b, first⟩, others⟩ := List.forall_mem_cons.1 answers
    obtain ⟨bs, rest, length⟩ := ih others
    refine ⟨b :: bs, ?_, congrArg (· + 1) length⟩
    rw [List.mapM_cons, first, rest]
    rfl

namespace Reasoner

variable {r r' : Reasoner} {f : Facts} {p : Program} {s : Predicate → Nat} {fuel k : Nat}
  {rules : Program} {strata : List Program}

/-- The rule compiles and, as it is planned, is accepted and derives nothing that the interpretation
lacks. -/
structure Finished (r : Reasoner) (M : Interpretation) (rule : Rule) : Prop where
  compiles : ∃ c, r.compile rule = .ok c
  accepted : (r.planner.plan rule).Accepted M
  saturated : ∀ t, (r.planner.plan rule).Derives M t → t ∈ M rule.headPredicate

theorem planner_of_settings (same : r'.settings = r.settings) : r'.planner = r.planner := by
  rw [planner, planner, same]

theorem Finished.of_settings {M : Interpretation} {rule : Rule} (finished : r.Finished M rule)
    (same : r'.settings = r.settings) : r'.Finished M rule := by
  have alike := planner_of_settings same
  refine ⟨?_, ?_, ?_⟩
  · rw [compile, alike]
    exact finished.compiles
  · rw [alike]
    exact finished.accepted
  · rw [alike]
    exact finished.saturated

/-- Only what lies no higher than its head matters to a rule of a layered program. -/
theorem Finished.of_agree {M N : Interpretation} {rule : Rule} (layered : p.LayeredBy s)
    (member : rule ∈ p) (finished : r.Finished M rule)
    (agree : ∀ q, s q ≤ s rule.headPredicate → N q = M q) : r.Finished N rule := by
  obtain ⟨-, perm⟩ := r.planner.plan_perm rule
  have read : ∀ l ∈ (r.planner.plan rule).body, N l.predicate = M l.predicate := by
    intro l hl
    have below := layered rule member l (perm.mem_iff.1 hl)
    refine agree _ ?_
    split at below <;> omega
  refine ⟨finished.compiles, finished.accepted.congr fun i l member _ => ?_, fun t derives => ?_⟩
  · exact (read l (List.mem_of_getElem? member)).symm
  rw [agree _ le_rfl]
  exact finished.saturated t (derives.mono (fun l hl _ => (read l hl).le) fun l hl _ => (read l hl).ge)

/-- A stratum that was evaluated has finished with its rules. -/
theorem finished_of_evaluateStratum (settled : Predicate → Prop) {report : Report}
    (memory : r.store = .memory f) (unlimited : r.settings.evaluation.maxRuleEvaluations = 0)
    (negated : ∀ rule ∈ rules, ∀ l ∈ rule.body, l.NegatesStored → settled l.predicate)
    (open_heads : ∀ rule ∈ rules, ¬settled rule.headPredicate)
    (h : r.evaluateStratum fuel k rules = some (.ok report, r')) :
    ∃ f', r'.store = .memory f' ∧ f.Continues settled f' ∧ r'.settings = r.settings ∧
      ∀ rule ∈ rules, r.Finished f'.model rule := by
  obtain ⟨compiled, run, mapped, growth, saturated, store', settings⟩ :=
    growth_of_evaluateStratum settled memory unlimited negated open_heads h
  refine ⟨run.facts, store', growth.good, settings, fun rule member => ?_⟩
  obtain ⟨c, hc, compiles⟩ := (mem_of_mapM mapped).2 rule member
  obtain ⟨out, answers, stored⟩ := saturated _ (List.mem_map_of_mem hc)
  obtain ⟨accepted, members⟩ := (CompiledRule.answers_iff compiles).1 answers
  refine ⟨⟨c, compiles⟩, accepted, fun t derives => ?_⟩
  rw [← head_of_compile compiles]
  exact stored t ((members t).2 derives)

/-- The strata from `k` on, once evaluated, have finished with all their rules, and have not touched the
predicates below. -/
theorem finished_of_evaluateStrata (layered : p.LayeredBy s) {reports : List Report}
    (listed : ListsStrata p s k strata) (memory : r.store = .memory f)
    (unlimited : r.settings.evaluation.maxRuleEvaluations = 0)
    (h : evaluateStrata fuel (strata.zipIdx k) r = some (.ok reports, r')) :
    ∃ f', r'.store = .memory f' ∧ f.Continues (fun q => s q < k) f' ∧ r'.settings = r.settings ∧
      ∀ rule ∈ p, k ≤ s rule.headPredicate → r.Finished f'.model rule := by
  induction strata generalizing k r f reports with
  | nil =>
    cases h
    refine ⟨f, memory, .refl f _, rfl, fun rule member high => ?_⟩
    exact absurd (listed.above_of_nil rule member) (Nat.not_lt.2 high)
  | cons rules strata ih =>
    obtain ⟨negated, open_heads⟩ := listed.settled layered
    -- A stratum without rules is passed over, and has trivially finished with them.
    obtain ⟨r₁, f₁, reports', memory₁, continues, settings₁, finished, rest⟩ :
        ∃ r₁ f₁ reports', r₁.store = .memory f₁ ∧ f.Continues (fun q => s q < k) f₁ ∧
          r₁.settings = r.settings ∧ (∀ rule ∈ rules, r.Finished f₁.model rule) ∧
          evaluateStrata fuel (strata.zipIdx (k + 1)) r₁ = some (.ok reports', r') := by
      rw [List.zipIdx_cons] at h
      by_cases empty : rules = []
      · subst empty
        exact ⟨r, f, reports, memory, .refl f _, rfl, by simp, h⟩
      · obtain ⟨report, r₁, reports', evaluated, rest, -⟩ := evaluateStrata_cons empty h
        obtain ⟨f₁, memory₁, continues, settings₁, finished⟩ :=
          finished_of_evaluateStratum (fun q => s q < k) memory unlimited negated open_heads evaluated
        exact ⟨r₁, f₁, reports', memory₁, continues, settings₁, finished, rest⟩
    obtain ⟨f', memory', continues', settings', above⟩ :=
      ih listed.rest memory₁ (by rw [settings₁]; exact unlimited) rest
    refine ⟨f', memory', fun q below => ?_, settings'.trans settings₁, fun rule member high => ?_⟩
    · rw [continues' q (Nat.lt_succ_of_lt below), continues q below]
    · rcases Nat.eq_or_lt_of_le high with at_k | higher
      · have own : rule ∈ rules := by
          rw [listed.first, List.mem_filter]
          exact ⟨member, by simpa using at_k.symm⟩
        -- The strata above have added to predicates that this rule does not see.
        refine (finished rule own).of_agree layered member fun q below => ?_
        exact continues' q (Nat.lt_succ_of_le (at_k ▸ below))
      · exact (above rule member higher).of_settings settings₁.symm

/-! ### Evaluating again -/

/-- A stratum that has finished with its rules calls each of them once and changes nothing. -/
theorem evaluateStratum_quiet (settled : Predicate → Prop) (memory : r.store = .memory f)
    (unlimited : r.settings.evaluation.maxRuleEvaluations = 0)
    (negated : ∀ rule ∈ rules, ∀ l ∈ rule.body, l.NegatesStored → settled l.predicate)
    (open_heads : ∀ rule ∈ rules, ¬settled rule.headPredicate) (nonempty : rules ≠ [])
    (finished : ∀ rule ∈ rules, r.Finished f.model rule) (fuel k : Nat) :
    ∃ r' f', r.evaluateStratum (fuel + 1) k rules = some (.ok (.quiet k rules.length), r') ∧
      r'.store = .memory f' ∧ f'.model = f.model ∧ r'.settings = r.settings := by
  obtain ⟨compiled, mapped, length⟩ := mapM_of_forall fun rule hr => (finished rule hr).compiles
  have incremental := incremental_of_compile (f := f) mapped negated open_heads
  have stored : FactStore.facts r.store = f := by rw [memory]; rfl
  have saturated : ∀ rule ∈ compiled.map CompiledRule.toEvaluable,
      rule.SaturatedOn (f.Continues settled) (FactStore.facts r.store) := by
    intro evaluable member
    rw [stored]
    refine ⟨incremental evaluable member, .refl f settled, ?_⟩
    obtain ⟨c, hc, rfl⟩ := List.mem_map.1 member
    obtain ⟨rule, hr, compiles⟩ := (mem_of_mapM mapped).1 c hc
    obtain ⟨out, engine', answer, members⟩ :=
      CompiledRule.evaluate_accepted compiles {} (finished rule hr).accepted {}
    refine ⟨out, (CompiledRule.answers_iff compiles).2 ⟨(finished rule hr).accepted, members⟩, ?_⟩
    rw [head_of_compile compiles]
    exact fun t ht => (finished rule hr).saturated t ((members t).1 ht)
  have some_rule : compiled.map CompiledRule.toEvaluable ≠ [] := by
    intro none
    rw [List.map_eq_nil_iff] at none
    rw [none] at length
    exact nonempty (List.length_eq_zero_iff.1 length.symm)
  have no_limit : r.limits.maxEvaluations = 0 := unlimited
  obtain ⟨run, evaluated, quiet⟩ := Strategy.evaluate_quiet Store.reliable no_limit ⟨f, memory⟩ saturated
    some_rule r.strategy fuel k r.engine
  rw [stored, List.length_map, length] at quiet
  obtain ⟨f', memory'⟩ := quiet.kind
  have same : run.facts = f' := congrArg FactStore.facts memory'
  obtain ⟨after, recorded, store', settings, -⟩ :=
    recordDerived_memory (r := { r with store := run.store, engine := run.env }) memory'
      (resultContext k run.report.iterations rules) run.report.derived.toList
  refine ⟨after, f', ?_, store', same ▸ quiet.same, settings⟩
  rw [evaluateStratum, mapped]
  simp only [evaluated, Option.bind_eq_bind, Option.bind_some, quiet.failure, recorded]
  rw [quiet.report]
  rfl

/-- The reports of strata each of which called its rules once and found nothing new; those without rules
make no report. -/
def quietReports (strata : List (Program × Nat)) : List Report :=
  (strata.filter (·.1 ≠ [])).map fun e => .quiet e.2 e.1.length

theorem evaluateStrata_quiet (layered : p.LayeredBy s) (listed : ListsStrata p s k strata)
    (memory : r.store = .memory f) (unlimited : r.settings.evaluation.maxRuleEvaluations = 0)
    (finished : ∀ rule ∈ p, r.Finished f.model rule) (fuel : Nat) :
    ∃ r' f', evaluateStrata (fuel + 1) (strata.zipIdx k) r =
        some (.ok (quietReports (strata.zipIdx k)), r') ∧
      r'.store = .memory f' ∧ f'.model = f.model := by
  induction strata generalizing k r f with
  | nil => exact ⟨r, f, rfl, memory, rfl⟩
  | cons rules strata ih =>
    obtain ⟨negated, open_heads⟩ := listed.settled layered
    rw [List.zipIdx_cons]
    cases rules with
    | nil =>
      exact ih listed.rest memory unlimited finished
    | cons rule rules =>
      obtain ⟨r₁, f₁, evaluated, memory₁, same₁, settings₁⟩ :=
        evaluateStratum_quiet (fun q => s q < k) memory unlimited negated open_heads
          (List.cons_ne_nil _ _) (fun rule' hr => finished rule' (listed.mem hr).1) fuel k
      have finished₁ : ∀ rule' ∈ p, r₁.Finished f₁.model rule' := by
        intro rule' hr
        rw [same₁]
        exact (finished rule' hr).of_settings settings₁
      obtain ⟨r', f', rest, memory', same'⟩ :=
        ih listed.rest memory₁ (by rw [settings₁]; exact unlimited) finished₁
      refine ⟨r', f', ?_, memory', same'.trans same₁⟩
      simp only [evaluateStrata, evaluated, rest, Option.bind_eq_bind, Option.bind_some]
      rfl

/-- **Evaluating a program again adds nothing.** When a reasoner over facts in memory has evaluated a
program, without a limit on evaluations, and evaluates it again at once, it answers with any fuel at
all. No relation changes, and each stratum that has rules reports one iteration that called every rule
once and found nothing new. -/
theorem evaluate_again {report : ProgramReport} (memory : r.store = .memory f)
    (unlimited : r.settings.evaluation.maxRuleEvaluations = 0)
    (h : r.evaluate fuel p = some (.ok report, r')) (fuel' : Nat) :
    ∃ strat report' r'', p.stratify = .ok strat ∧
      r'.evaluate (fuel' + 1) p = some (.ok report', r'') ∧
      (∀ q, r''.relation q = r'.relation q) ∧
      report'.strata = (strat.strata.zipIdx.filter (·.1 ≠ [])).map fun e =>
        { stratum := e.2, evaluations := List.replicate e.1.length 1, iterations := 1, newFacts := 0,
          derived := ∅ } := by
  rcases evaluate_cases h with ⟨-, e, failed, -⟩ | ⟨strat, answer, valid, stratified, evaluated, ok⟩
  · cases failed
  · cases answer with
    | error e => cases ok
    | ok reports =>
      have layered := (Program.isLeast_stratumOf stratified).1
      have listed := listsStrata_of_stratify stratified
      obtain ⟨f', memory', continues, settings, finished⟩ := finished_of_evaluateStrata
        (r := { r with counts := r.storedCounts }) layered listed memory unlimited evaluated
      have finished' : ∀ rule ∈ p,
          ({ r' with counts := r'.storedCounts } : Reasoner).Finished f'.model rule :=
        fun rule member => (finished rule member (Nat.zero_le _)).of_settings settings
      obtain ⟨r'', f'', again, memory'', same⟩ := evaluateStrata_quiet
        (r := { r' with counts := r'.storedCounts }) layered listed memory'
        ((congrArg (·.evaluation.maxRuleEvaluations) settings).trans unlimited) finished' fuel'
      refine ⟨strat, ⟨quietReports strat.strata.zipIdx⟩, r'', stratified, ?_, fun q => ?_, rfl⟩
      · rw [evaluate, valid, stratified]
        simp only [again, Option.bind_eq_bind, Option.bind_some]
        rfl
      · rw [relation, relation, facts, facts, memory', memory'']
        exact Facts.scan_eq_of_model_eq (congrFun same q)

/-- The two strata of the towns that have rules are evaluated again, with the least fuel. -/
theorem strandedRules_again :
    townReasoner.store = .memory roads ∧
    townReasoner.settings.evaluation.maxRuleEvaluations = 0 ∧
    ∃ report r', townReasoner.evaluate 9 strandedRules = some (.ok report, r') ∧
      (r'.relation ⟨"stranded", 1⟩).toList = [Tuple.ofInts [4]] ∧
      ∃ report' r'', r'.evaluate 1 strandedRules = some (.ok report', r'') ∧
        (∀ q, r''.relation q = r'.relation q) ∧
        report'.strata = [{ stratum := 1, evaluations := [1, 1], iterations := 1 },
          { stratum := 2, evaluations := [1], iterations := 1 }] := by
  have evaluated : ((townReasoner.evaluate 9 strandedRules).map fun answer =>
      (answer.1.isOk, (answer.2.relation ⟨"stranded", 1⟩).toList)) =
      some (true, [Tuple.ofInts [4]]) := by decide +kernel
  have layered : strandedRules.stratify.toOption.map (fun strat =>
      (strat.strata.zipIdx.filter (·.1 ≠ [])).map fun e => (e.2, e.1.length)) =
      some [(1, 2), (2, 1)] := by decide +kernel
  obtain ⟨⟨result, r'⟩, h, answered⟩ := Option.map_eq_some_iff.1 evaluated
  obtain ⟨ok, listed⟩ := Prod.mk.inj answered
  cases result with
  | error e => cases ok
  | ok report =>
    obtain ⟨strat, report', r'', stratified, again, same, strata⟩ :=
      evaluate_again (r := townReasoner) rfl rfl h 0
    refine ⟨rfl, rfl, report, r', h, listed, report', r'', again, same, ?_⟩
    rw [stratified] at layered
    have shape := Option.some.inj layered
    rw [strata]
    have mapped := congrArg (List.map fun e : Nat × Nat => Report.quiet e.1 e.2) shape
    rw [List.map_map] at mapped
    exact mapped

end Reasoner

end Datalog
