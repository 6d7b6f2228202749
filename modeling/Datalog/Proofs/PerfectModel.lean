import Datalog.Proofs.Fixpoint
import Datalog.Proofs.JoinPlans
import Datalog.Proofs.Layering
import Datalog.Proofs.Strategies
import Datalog.Reasoner

/-!
# Reasoners compute the perfect model

The perfect model of a program over given facts is built stratum by stratum: each stratum adds the
least set of tuples that closes what is there under the rules whose heads belong to it
(`Program.PerfectFrom`). What a stratum negates lies below it and is not touched any more, so there
is a least such set. A reasoner over facts in memory ends with exactly this model, for either
strategy and whether bodies are reordered or not, as long as the program multiplies nothing.
-/

namespace Datalog

/-- From the interpretation before stratum `k`, through the strata from there on, to the last one.
The relations after a stratum are the least extension of those before it that is closed under the
rules whose head has the stratum; the strata below are as they were. -/
inductive Program.PerfectFrom (p : Program) (s : Predicate → Nat) :
    Nat → Interpretation → Interpretation → Prop
  | done {k : Nat} {M : Interpretation} (above : ∀ r ∈ p, s r.headPredicate < k) :
      PerfectFrom p s k M M
  | stratum {k : Nat} {M N P : Interpretation}
      (least : IsLeast {N | Interpretation.Extension M (fun q => s q < k) N ∧
        N.ClosedUnder (p.filter fun r => s r.headPredicate = k)} N)
      (rest : PerfectFrom p s (k + 1) N P) : PerfectFrom p s k M P

namespace Program

variable {p : Program} {s : Predicate → Nat}

/-- A stratum without rules adds nothing. -/
theorem isLeast_of_no_rules {k : Nat} (empty : (p.filter fun r => s r.headPredicate = k) = [])
    (M : Interpretation) :
    IsLeast {N | Interpretation.Extension M (fun q => s q < k) N ∧
      N.ClosedUnder (p.filter fun r => s r.headPredicate = k)} M := by
  rw [empty]
  refine ⟨⟨⟨le_rfl, fun _ _ => rfl⟩, fun r hr => ?_⟩, fun N h => h.1.contains⟩
  cases hr

/-- Above the highest head nothing changes. -/
theorem PerfectFrom.eq_of_above {k : Nat} {M P : Interpretation} (h : p.PerfectFrom s k M P)
    (above : ∀ r ∈ p, s r.headPredicate < k) : P = M := by
  induction h with
  | done _ => rfl
  | @stratum k M N P least rest ih =>
    have empty : (p.filter fun r => s r.headPredicate = k) = [] := by
      rw [List.filter_eq_nil_iff]
      intro r hr at_k
      have below := above r hr
      simp only [decide_eq_true_eq] at at_k
      omega
    have unchanged : N = M := least.unique (isLeast_of_no_rules empty M)
    rw [ih fun r hr => Nat.lt_succ_of_lt (above r hr), unchanged]

/-- There is at most one perfect model. -/
theorem PerfectFrom.unique {k : Nat} {M P Q : Interpretation} (h : p.PerfectFrom s k M P)
    (h' : p.PerfectFrom s k M Q) : P = Q := by
  induction h with
  | done above => exact (h'.eq_of_above above).symm
  | stratum least rest ih =>
    cases h' with
    | done above => exact (PerfectFrom.stratum least rest).eq_of_above above
    | stratum least' rest' =>
      rw [least'.unique least] at rest'
      exact ih rest'

end Program

/-! ### One stratum -/

/-- A store in memory takes any tuples. -/
theorem Store.reliable : FactStore.Reliable fun s : Store => ∃ f, s = .memory f := by
  rintro _ p r ⟨f, rfl⟩
  exact ⟨.memory (f.add p r), rfl, ⟨_, rfl⟩, rfl⟩

/-- What a list becomes under a function that may fail. -/
theorem mem_of_mapM {α β ε : Type} {f : α → Except ε β} {l : List α} {bs : List β}
    (h : l.mapM f = .ok bs) :
    (∀ b ∈ bs, ∃ a ∈ l, f a = .ok b) ∧ ∀ a ∈ l, ∃ b ∈ bs, f a = .ok b := by
  induction l generalizing bs with
  | nil =>
    cases h
    simp
  | cons a l ih =>
    rw [List.mapM_cons] at h
    obtain ⟨b, first, h⟩ := bind_eq_ok_iff.1 h
    obtain ⟨bs', rest, h⟩ := bind_eq_ok_iff.1 h
    cases h
    obtain ⟨from_list, to_list⟩ := ih rest
    constructor
    · refine List.forall_mem_cons.2 ⟨⟨a, List.mem_cons_self, first⟩, fun b' hb' => ?_⟩
      obtain ⟨a', ha', same⟩ := from_list b' hb'
      exact ⟨a', List.mem_cons_of_mem _ ha', same⟩
    · refine List.forall_mem_cons.2 ⟨⟨b, List.mem_cons_self, first⟩, fun a' ha' => ?_⟩
      obtain ⟨b', hb', same⟩ := to_list a' ha'
      exact ⟨b', List.mem_cons_of_mem _ hb', same⟩

namespace Reasoner

variable {r r' : Reasoner} {f : Facts}

/-- A planned rule without products derives the head instances of the rule wherever it fires. -/
theorem derives_plan_iff {planner : JoinPlanner} {rule : Rule}
    (no_products : ∀ l ∈ rule.body, l.builtin? ≠ some .multiply) {M : Interpretation} {t : Tuple} :
    (planner.plan rule).Derives M t ↔ ∃ σ, rule.FiresIn M σ ∧ rule.headInstance σ = t := by
  obtain ⟨head, perm⟩ := planner.plan_perm rule
  have determined (σ : Substitution) : Literal.Determined σ [] (planner.plan rule).body :=
    Rule.determined_of_no_products fun l hl => no_products l (perm.mem_iff.1 hl)
  rw [Rule.derives_of_perm head perm]
  simp only [determined, true_and]

/-- Memory records no results, so recording them changes no facts. -/
theorem recordDerived_memory (memory : r.store = .memory f) (context : Predicate → Context)
    (derived : List (Predicate × Relation)) :
    ∃ r', r.recordDerived context derived = (.ok (), r') ∧ r'.store = .memory f ∧
      r'.settings = r.settings ∧ r'.engine = r.engine := by
  induction derived generalizing r with
  | nil => exact ⟨r, rfl, memory, rfl, rfl⟩
  | cons e rest ih =>
    obtain ⟨p, tuples⟩ := e
    rw [recordDerived, memory]
    exact ih rfl

theorem head_of_compile {rule : Rule} {c : CompiledRule} (compiled : r.compile rule = .ok c) :
    c.toEvaluable.head = rule.headPredicate := by
  show c.head = rule.headPredicate
  rw [CompiledRule.head_of_compile compiled, Rule.headPredicate, (r.planner.plan_perm rule).1]
  rfl

section Stratum

variable {rules : Program} {compiled : List CompiledRule} {settled : Predicate → Prop}

theorem incremental_of_compile (mapped : rules.mapM r.compile = .ok compiled)
    (negated : ∀ rule ∈ rules, ∀ l ∈ rule.body, l.NegatesStored → settled l.predicate)
    (open_heads : ∀ rule ∈ rules, ¬settled rule.headPredicate) :
    ∀ rule ∈ compiled.map CompiledRule.toEvaluable, rule.Incremental (f.Continues settled) := by
  intro evaluable member
  obtain ⟨c, hc, rfl⟩ := List.mem_map.1 member
  obtain ⟨rule, hrule, compiles⟩ := (mem_of_mapM mapped).1 c hc
  obtain ⟨head, perm⟩ := r.planner.plan_perm rule
  refine CompiledRule.incremental compiles (fun l hl => negated rule hrule l (perm.mem_iff.1 hl)) ?_
  rw [Rule.headPredicate, head]
  exact open_heads rule hrule

/-- A closed extension has what the compiled rules return on facts within it. -/
theorem closedIn_of_closedUnder (mapped : rules.mapM r.compile = .ok compiled)
    (no_products : ∀ rule ∈ rules, ∀ l ∈ rule.body, l.builtin? ≠ some .multiply)
    (negated : ∀ rule ∈ rules, ∀ l ∈ rule.body, l.NegatesStored → settled l.predicate)
    {M : Interpretation} (extension : Interpretation.Extension f.model settled M)
    (closed : M.ClosedUnder rules) :
    ∀ rule ∈ compiled.map CompiledRule.toEvaluable, rule.ClosedIn (f.Continues settled) M := by
  intro evaluable member g good below out gives t ht
  obtain ⟨c, hc, rfl⟩ := List.mem_map.1 member
  obtain ⟨rule, hrule, compiles⟩ := (mem_of_mapM mapped).1 c hc
  obtain ⟨σ, fires, rfl⟩ := (derives_plan_iff (no_products rule hrule)).1
    (CompiledRule.derives_of_mayGive compiles gives ht)
  rw [head_of_compile compiles]
  refine closed rule hrule σ fun l hl => (fires l hl).mono (fun _ => below l.predicate) fun neg => ?_
  have fixed := negated rule hrule l hl neg
  rw [extension.keeps _ fixed, good _ fixed]

/-- Facts that have what the compiled rules return are closed under the rules. -/
theorem closedUnder_of_saturated (mapped : rules.mapM r.compile = .ok compiled)
    (no_products : ∀ rule ∈ rules, ∀ l ∈ rule.body, l.builtin? ≠ some .multiply)
    {run : Run Engine Store}
    (saturated : ∀ rule ∈ compiled.map CompiledRule.toEvaluable, run.Saturated rule) :
    run.facts.model.ClosedUnder rules := by
  intro rule hrule σ fires
  obtain ⟨c, hc, compiles⟩ := (mem_of_mapM mapped).2 rule hrule
  obtain ⟨out, answers, stored⟩ := saturated _ (List.mem_map_of_mem hc)
  obtain ⟨-, members⟩ := (CompiledRule.answers_iff compiles).1 answers
  rw [← head_of_compile compiles]
  refine stored _ ((members _).2 ?_)
  exact (derives_plan_iff (no_products rule hrule)).2 ⟨σ, fires, rfl⟩

/-- A stratum that is evaluated ran without a failure, and what the run derived was recorded. -/
theorem evaluateStratum_ok {fuel k : Nat} {report : Report}
    (h : r.evaluateStratum fuel k rules = some (.ok report, r')) :
    ∃ compiled run, rules.mapM r.compile = .ok compiled ∧
      r.strategy.evaluate fuel r.limits k (compiled.map CompiledRule.toEvaluable) r.store r.engine =
        some run ∧
      run.failure = none ∧ run.report = report ∧
      recordDerived { r with store := run.store, engine := run.env }
        (resultContext k report.iterations rules) report.derived.toList = (.ok (), r') := by
  unfold evaluateStratum at h
  cases mapped : rules.mapM r.compile with
  | error e =>
    rw [mapped] at h
    cases h
  | ok compiled =>
    rw [mapped] at h
    obtain ⟨run, evaluated, h⟩ := Option.bind_eq_some_iff.1 h
    refine ⟨compiled, run, rfl, evaluated, ?_⟩
    dsimp only at h
    split at h
    · cases h
    · next ok =>
      rcases recorded : recordDerived { r with store := run.store, engine := run.env }
        (resultContext k run.report.iterations rules) run.report.derived.toList with ⟨_ | _, after⟩
      · rw [recorded] at h
        cases h
      · rw [recorded] at h
        cases h
        exact ⟨ok, rfl, recorded⟩

/-- A stratum that is evaluated ends with the store of its run, which did not fail. -/
theorem run_of_evaluateStratum {fuel k : Nat} {report : Report}
    (h : r.evaluateStratum fuel k rules = some (.ok report, r')) :
    ∃ compiled run, rules.mapM r.compile = .ok compiled ∧
      r.strategy.evaluate fuel r.limits k (compiled.map CompiledRule.toEvaluable) r.store r.engine =
        some run ∧ run.failure = none ∧
      ∀ f', run.store = .memory f' → r'.store = .memory f' ∧ r'.settings = r.settings := by
  obtain ⟨compiled, run, mapped, evaluated, ok, -, recorded⟩ := evaluateStratum_ok h
  refine ⟨compiled, run, mapped, evaluated, ok, fun f' memory => ?_⟩
  obtain ⟨after, same, stored, settings, -⟩ :=
    recordDerived_memory (r := { r with store := run.store, engine := run.env }) memory
      (resultContext k report.iterations rules) report.derived.toList
  cases same.symm.trans recorded
  exact ⟨stored, settings⟩

/-- A stratum that is evaluated without a limit leaves the store of a run that grew and ended when no
rule returned more. -/
theorem growth_of_evaluateStratum (settled : Predicate → Prop) {fuel k : Nat} {report : Report}
    (memory : r.store = .memory f) (unlimited : r.settings.evaluation.maxRuleEvaluations = 0)
    (negated : ∀ rule ∈ rules, ∀ l ∈ rule.body, l.NegatesStored → settled l.predicate)
    (open_heads : ∀ rule ∈ rules, ¬settled rule.headPredicate)
    (h : r.evaluateStratum fuel k rules = some (.ok report, r')) :
    ∃ compiled, ∃ run : Run Engine Store, rules.mapM r.compile = .ok compiled ∧
      run.Growth (fun s => ∃ f, s = .memory f) (f.Continues settled)
        (compiled.map CompiledRule.toEvaluable) f ∧
      (∀ rule ∈ compiled.map CompiledRule.toEvaluable, run.Saturated rule) ∧
      r'.store = .memory run.facts ∧ r'.settings = r.settings := by
  obtain ⟨compiled, run, mapped, evaluated, ok, after⟩ := run_of_evaluateStratum h
  have stored : FactStore.facts r.store = f := by rw [memory]; rfl
  have good : f.Continues settled (FactStore.facts r.store) := by
    rw [stored]
    exact .refl f settled
  have incremental : ∀ rule ∈ compiled.map CompiledRule.toEvaluable,
      rule.Incremental (f.Continues settled) := incremental_of_compile mapped negated open_heads
  obtain ⟨growth, saturated⟩ :=
    Strategy.evaluate_spec Store.reliable incremental ⟨f, memory⟩ good evaluated
  rw [stored] at growth
  obtain ⟨f', memory'⟩ := growth.kind
  obtain ⟨store', settings⟩ := after f' memory'
  have same : run.facts = f' := congrArg FactStore.facts memory'
  exact ⟨compiled, run, mapped, growth, saturated unlimited ok, same ▸ store', settings⟩

/-- **A stratum reaches the least extension that is closed under its rules.** -/
theorem evaluateStratum_least (settled : Predicate → Prop) {fuel k : Nat} {report : Report}
    (memory : r.store = .memory f) (unlimited : r.settings.evaluation.maxRuleEvaluations = 0)
    (no_products : ∀ rule ∈ rules, ∀ l ∈ rule.body, l.builtin? ≠ some .multiply)
    (negated : ∀ rule ∈ rules, ∀ l ∈ rule.body, l.NegatesStored → settled l.predicate)
    (open_heads : ∀ rule ∈ rules, ¬settled rule.headPredicate)
    (h : r.evaluateStratum fuel k rules = some (.ok report, r')) :
    ∃ f', r'.store = .memory f' ∧ r'.settings = r.settings ∧
      IsLeast {M | Interpretation.Extension f.model settled M ∧ M.ClosedUnder rules} f'.model := by
  obtain ⟨compiled, run, mapped, growth, saturated, store', settings⟩ :=
    growth_of_evaluateStratum settled memory unlimited negated open_heads h
  have closed := closedUnder_of_saturated mapped no_products saturated
  refine ⟨run.facts, store', settings, ⟨⟨growth.contains, growth.good⟩, closed⟩, fun M hM => ?_⟩
  exact growth.within M hM.1.contains
    (closedIn_of_closedUnder mapped no_products negated hM.1 hM.2)

end Stratum

/-! ### All strata -/

/-- Strata are evaluated one after the other. -/
theorem evaluateStrata_cons {fuel k : Nat} {rules : Program} (nonempty : rules ≠ [])
    {rest : List (Program × Nat)} {reports : List Report}
    (h : evaluateStrata fuel ((rules, k) :: rest) r = some (.ok reports, r')) :
    ∃ report r₁ reports', r.evaluateStratum fuel k rules = some (.ok report, r₁) ∧
      evaluateStrata fuel rest r₁ = some (.ok reports', r') ∧ reports = report :: reports' := by
  cases rules with
  | nil => exact absurd rfl nonempty
  | cons rule rules =>
    obtain ⟨⟨result, r₁⟩, evaluated, h⟩ := Option.bind_eq_some_iff.1 h
    cases result with
    | error e => cases h
    | ok report =>
      obtain ⟨⟨result, r₂⟩, others, h⟩ := Option.bind_eq_some_iff.1 h
      cases result with
      | error e => cases h
      | ok reports' =>
        cases h
        exact ⟨report, r₁, reports', evaluated, others, rfl⟩

/-- The list holds the strata from `k` up to the highest head. -/
def ListsStrata (p : Program) (s : Predicate → Nat) (k : Nat) (strata : List Program) : Prop :=
  ∀ j, strata[j]? = if ∃ rule ∈ p, k + j ≤ s rule.headPredicate
    then some (p.filter fun rule => s rule.headPredicate = k + j) else none

section Strata

variable {p : Program} {s : Predicate → Nat} {k : Nat} {rules : Program} {strata : List Program}

theorem ListsStrata.above_of_nil (listed : ListsStrata p s k []) :
    ∀ rule ∈ p, s rule.headPredicate < k := by
  intro rule member
  by_contra high
  have absent := listed 0
  rw [if_pos ⟨rule, member, by omega⟩] at absent
  cases absent

theorem ListsStrata.first (listed : ListsStrata p s k (rules :: strata)) :
    rules = p.filter fun rule => s rule.headPredicate = k := by
  have own := listed 0
  split at own
  · exact Option.some.inj own
  · cases own

theorem ListsStrata.rest (listed : ListsStrata p s k (rules :: strata)) :
    ListsStrata p s (k + 1) strata := by
  intro j
  have later := listed (j + 1)
  rwa [List.getElem?_cons_succ, show k + (j + 1) = k + 1 + j by omega] at later

/-- The rules of a stratum are the rules of the program whose head has it. -/
theorem ListsStrata.mem (listed : ListsStrata p s k (rules :: strata)) {rule : Rule}
    (member : rule ∈ rules) : rule ∈ p ∧ s rule.headPredicate = k := by
  rw [listed.first, List.mem_filter] at member
  exact ⟨member.1, by simpa using member.2⟩

/-- What a stratum negates lies below it, and its heads do not. -/
theorem ListsStrata.settled (layered : p.LayeredBy s) (listed : ListsStrata p s k (rules :: strata)) :
    (∀ rule ∈ rules, ∀ l ∈ rule.body, l.NegatesStored → s l.predicate < k) ∧
      ∀ rule ∈ rules, ¬s rule.headPredicate < k := by
  refine ⟨fun rule hr l hl neg => ?_, fun rule hr => ?_⟩
  · obtain ⟨member, at_k⟩ := listed.mem hr
    have below := layered rule member l hl
    rwa [if_neg (by rw [neg.2]; exact Bool.false_ne_true), at_k] at below
  · rw [(listed.mem hr).2]
    exact lt_irrefl k

/-- The strata from `k` on, evaluated over what the strata before them left, reach the perfect
model. -/
theorem perfectFrom_of_evaluateStrata (layered : p.LayeredBy s)
    (no_products : ∀ rule ∈ p, ∀ l ∈ rule.body, l.builtin? ≠ some .multiply) {fuel : Nat}
    {reports : List Report} (listed : ListsStrata p s k strata) (memory : r.store = .memory f)
    (unlimited : r.settings.evaluation.maxRuleEvaluations = 0)
    (h : evaluateStrata fuel (strata.zipIdx k) r = some (.ok reports, r')) :
    ∃ f', r'.store = .memory f' ∧ p.PerfectFrom s k f.model f'.model := by
  induction strata generalizing k r f reports with
  | nil =>
    cases h
    exact ⟨f, memory, .done listed.above_of_nil⟩
  | cons rules strata ih =>
    have own := listed.first
    rw [List.zipIdx_cons] at h
    by_cases empty : rules = []
    · subst empty
      obtain ⟨f', memory', rest⟩ := ih listed.rest memory unlimited h
      exact ⟨f', memory', .stratum (Program.isLeast_of_no_rules own.symm _) rest⟩
    · obtain ⟨report, r₁, reports', evaluated, rest, -⟩ := evaluateStrata_cons empty h
      obtain ⟨negated, open_heads⟩ := listed.settled layered
      obtain ⟨f₁, memory₁, settings₁, least⟩ :=
        evaluateStratum_least (fun q => s q < k) memory unlimited
          (fun rule hr => no_products rule (listed.mem hr).1) negated open_heads evaluated
      obtain ⟨f', memory', perfect⟩ :=
        ih listed.rest memory₁ (by rw [settings₁]; exact unlimited) rest
      rw [own] at least
      exact ⟨f', memory', .stratum least perfect⟩

end Strata

/-- A layered program lists its strata from the lowest one on. -/
theorem listsStrata_of_stratify {p : Program} {strat : Stratification}
    (stratified : p.stratify = .ok strat) : ListsStrata p strat.stratumOf 0 strat.strata := by
  intro j
  rw [Nat.zero_add]
  exact Program.getElem?_strata stratified j

/-- A program is refused at once, and nothing changes, or its strata are evaluated from the lowest on. -/
theorem evaluate_cases {p : Program} {fuel : Nat} {result : Except EngineError ProgramReport}
    (h : r.evaluate fuel p = some (result, r')) :
    (r' = r ∧ ∃ e, result = .error e ∧ (p.validate = .error e ∨ p.stratify = .error e)) ∨
    ∃ strat reports, p.validate = .ok () ∧ p.stratify = .ok strat ∧
      evaluateStrata fuel strat.strata.zipIdx { r with counts := r.storedCounts } = some (reports, r') ∧
      result = reports.map ProgramReport.mk := by
  unfold evaluate at h
  cases valid : p.validate with
  | error e =>
    rw [valid] at h
    cases h
    exact .inl ⟨rfl, e, rfl, .inl rfl⟩
  | ok u =>
    rw [valid] at h
    cases stratified : p.stratify with
    | error e =>
      rw [stratified] at h
      cases h
      exact .inl ⟨rfl, e, rfl, .inr rfl⟩
    | ok strat =>
      rw [stratified] at h
      obtain ⟨⟨reports, r₁⟩, evaluated, h⟩ := Option.bind_eq_some_iff.1 h
      cases h
      exact .inr ⟨strat, reports, rfl, rfl, evaluated, rfl⟩

/-- **A reasoner over facts in memory computes the perfect model.** Whenever it answers that a
program without products was evaluated, with no limit on evaluations, the facts it then holds are
the perfect model of the program over the facts it held, by the least layering of the program. -/
theorem evaluate_perfect {p : Program} {fuel : Nat} {report : ProgramReport}
    (memory : r.store = .memory f) (unlimited : r.settings.evaluation.maxRuleEvaluations = 0)
    (no_products : ∀ rule ∈ p, ∀ l ∈ rule.body, l.builtin? ≠ some .multiply)
    (h : r.evaluate fuel p = some (.ok report, r')) :
    ∃ s f', IsLeast {s | p.LayeredBy s} s ∧ r'.store = .memory f' ∧
      p.PerfectFrom s 0 f.model f'.model := by
  rcases evaluate_cases h with ⟨-, e, failed, -⟩ | ⟨strat, reports, -, stratified, evaluated, answer⟩
  · cases failed
  cases reports with
  | error e => cases answer
  | ok reports =>
    have least := Program.isLeast_stratumOf stratified
    obtain ⟨f', memory', perfect⟩ := perfectFrom_of_evaluateStrata
      (r := { r with counts := r.storedCounts }) least.1 no_products (listsStrata_of_stratify stratified)
      memory unlimited evaluated
    exact ⟨strat.stratumOf, f', least, memory', perfect⟩

/-- A town at the end of a road is stranded when it is not reached. -/
def strandedRules : Program :=
  ⟨.ofVars "stranded" ["Y"], [.pos (.ofVars "road" ["X", "Y"]), .neg (.ofVars "reach" ["Y"])]⟩ ::
    reachRules

/-- A reasoner without facts. -/
def emptyReasoner : Reasoner := { settings := {}, strategy := .dependency, store := .memory ∅ }

/-- A reasoner over the roads. -/
def townReasoner : Reasoner := { emptyReasoner with store := .memory roads }

/-- In the perfect model over the roads, the closed town is stranded and no other. -/
theorem perfect_strandedRules :
    townReasoner.store = .memory roads ∧
    townReasoner.settings.evaluation.maxRuleEvaluations = 0 ∧
    (∀ rule ∈ strandedRules, ∀ l ∈ rule.body, l.builtin? ≠ some .multiply) ∧
    ∃ report r', townReasoner.evaluate 9 strandedRules = some (.ok report, r') ∧
      ∃ s f', IsLeast {s | strandedRules.LayeredBy s} s ∧ r'.store = .memory f' ∧
        strandedRules.PerfectFrom s 0 roads.model f'.model ∧
        f'.model ⟨"stranded", 1⟩ = {t | t ∈ [Tuple.ofInts [4]]} := by
  have no_products : ∀ rule ∈ strandedRules, ∀ l ∈ rule.body, l.builtin? ≠ some .multiply := by
    decide +kernel
  have evaluated : ((townReasoner.evaluate 9 strandedRules).map fun answer =>
      (answer.1.isOk, (answer.2.facts.scan ⟨"stranded", 1⟩).toList)) =
      some (true, [Tuple.ofInts [4]]) := by decide +kernel
  obtain ⟨⟨result, r'⟩, h, answered⟩ := Option.map_eq_some_iff.1 evaluated
  obtain ⟨ok, listed⟩ := Prod.mk.inj answered
  cases result with
  | error e => cases ok
  | ok report =>
    obtain ⟨s, f', least, memory, perfect⟩ :=
      evaluate_perfect (r := townReasoner) rfl rfl no_products h
    refine ⟨rfl, rfl, no_products, report, r', h, s, f', least, memory, perfect, ?_⟩
    have scanned : (f'.scan ⟨"stranded", 1⟩).toList = [Tuple.ofInts [4]] := by
      rw [← listed, Reasoner.facts, memory]
      rfl
    rw [← scanned]
    rfl

end Reasoner

end Datalog
