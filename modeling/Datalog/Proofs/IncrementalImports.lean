import Datalog.Proofs.DirectorySteps
import Datalog.Proofs.Reevaluation

/-!
# When facts are imported does not matter

Of a program that negates no stored predicate, the planned rules derive more from more facts. So an
evaluation over some of the facts derives nothing that it would not derive from all of them: whatever a
reasoner has imported and evaluated, its facts lie between what it was supplied with and the least
interpretation that has this and all that the rules derive from it (`Reasoner.Within`). Every import and
every evaluation keeps them there, and an evaluation that ends has reached that least interpretation
(`Reasoner.Within.evaluate`). What is supplied thus fixes the relations after an evaluation; in which
batches it came, in which order, and what was evaluated in between, do not.
-/

namespace Datalog

/-- No literal denies that a tuple is stored. Builtins may be negated. -/
def Program.Monotone (p : Program) : Prop := ∀ rule ∈ p, ∀ l ∈ rule.body, ¬l.NegatesStored

theorem Program.monotone_of_positive {p : Program}
    (positive : ∀ rule ∈ p, ∀ l ∈ rule.body, l.positive = true) : p.Monotone := by
  rintro rule member l hl ⟨-, negative⟩
  rw [positive rule member l hl] at negative
  cases negative

/-- The interpretations that have all of `base`, and all that the planned rules derive from them. -/
def JoinPlanner.closures (planner : JoinPlanner) (p : Program) (base : Interpretation) :
    Set Interpretation :=
  {M | base ≤ M ∧ ∀ rule ∈ p, ∀ t, (planner.plan rule).Derives M t → t ∈ M rule.headPredicate}

theorem JoinPlanner.closures_anti {planner : JoinPlanner} {p : Program} {base more : Interpretation}
    (le : base ≤ more) : planner.closures p more ⊆ planner.closures p base :=
  fun _ hM => ⟨le.trans hM.1, hM.2⟩

/-- A planned rule that negates no stored predicate derives more from more. -/
theorem Rule.Derives.of_le {planner : JoinPlanner} {rule : Rule} {M N : Interpretation} {t : Tuple}
    (derives : (planner.plan rule).Derives M t) (monotone : ∀ l ∈ rule.body, ¬l.NegatesStored)
    (le : M ≤ N) : (planner.plan rule).Derives N t := by
  obtain ⟨-, perm⟩ := planner.plan_perm rule
  refine derives.mono (fun l _ _ => le l.predicate) fun l hl negates => ?_
  exact absurd negates (monotone l (perm.mem_iff.1 hl))

namespace Reasoner

variable {r r' : Reasoner} {p rules : Program} {base : Interpretation} {f : Facts} {fuel k : Nat}

/-! ### What every step keeps -/

/-- The reasoner is over facts in memory, which have all of `base` and nothing that is not in all its
closures. -/
structure Within (r : Reasoner) (p : Program) (base : Interpretation) (f : Facts) : Prop where
  memory : r.store = .memory f
  contains : base ≤ f.model
  within : ∀ M ∈ r.planner.closures p base, f.model ≤ M

theorem Within.start (memory : r.store = .memory f) : r.Within p f.model f :=
  ⟨memory, le_rfl, fun _ hM => hM.1⟩

/-- An import into memory succeeds: it adds the facts of the batch, and counts those that are new. -/
theorem importBatch_memory (memory : r.store = .memory f) (batch : Facts) :
    ∃ f', r.importBatch batch =
        (.ok (Directory.newCount batch.toList f), { r with store := .memory f' }) ∧
      f'.model = f.model ⊔ batch.model := by
  refine ⟨Directory.addAll batch.toList f, ?_, ?_⟩
  · rw [importBatch, memory]
    rfl
  · funext q
    ext t
    exact Directory.mem_scan_addAll_toList

/-- Importing supplies the batch. -/
theorem Within.importBatch {batch : Facts} {n : Nat} (before : r.Within p base f)
    (h : r.importBatch batch = (.ok n, r')) :
    ∃ f', r'.Within p (base ⊔ batch.model) f' ∧ r'.settings = r.settings := by
  obtain ⟨f', imported, model⟩ := importBatch_memory before.memory batch
  rw [imported] at h
  cases h
  refine ⟨f', ⟨rfl, ?_, fun M hM => ?_⟩, rfl⟩
  · rw [model]
    exact sup_le_sup_right before.contains _
  · rw [model]
    refine sup_le (before.within M (JoinPlanner.closures_anti le_sup_left hM)) ?_
    exact le_sup_right.trans hM.1

/-- Evaluating some of the rules adds only what all closures have. -/
theorem Within.evaluateStratum {report : Report} (before : r.Within p base f) (monotone : p.Monotone)
    (unlimited : r.settings.evaluation.maxRuleEvaluations = 0) (members : ∀ rule ∈ rules, rule ∈ p)
    (h : r.evaluateStratum fuel k rules = some (.ok report, r')) :
    ∃ f', r'.Within p base f' ∧ r'.settings = r.settings := by
  -- Nothing is negated, so no predicate has to be settled before.
  obtain ⟨compiled, run, mapped, growth, -, memory', settings⟩ :=
    growth_of_evaluateStratum (fun _ => False) before.memory unlimited
      (fun rule hr l hl negates => monotone rule (members rule hr) l hl negates) (fun _ _ => id) h
  refine ⟨run.facts, ⟨memory', before.contains.trans growth.contains, ?_⟩, settings⟩
  intro M hM
  rw [planner_of_settings settings] at hM
  refine growth.within M (before.within M hM) fun evaluable member g _ below out gives t ht => ?_
  obtain ⟨c, hc, rfl⟩ := List.mem_map.1 member
  obtain ⟨rule, hr, compiles⟩ := (mem_of_mapM mapped).1 c hc
  have derives := CompiledRule.derives_of_mayGive compiles gives ht
  rw [head_of_compile compiles]
  exact hM.2 rule (members rule hr) t (derives.of_le (monotone rule (members rule hr)) below)

theorem Within.evaluateStrata {strata : List (Program × Nat)} {reports : List Report}
    (before : r.Within p base f) (monotone : p.Monotone)
    (unlimited : r.settings.evaluation.maxRuleEvaluations = 0)
    (members : ∀ e ∈ strata, ∀ rule ∈ e.1, rule ∈ p)
    (h : evaluateStrata fuel strata r = some (.ok reports, r')) :
    ∃ f', r'.Within p base f' ∧ r'.settings = r.settings := by
  induction strata generalizing r f reports with
  | nil =>
    cases h
    exact ⟨f, before, rfl⟩
  | cons e strata ih =>
    obtain ⟨rules, k⟩ := e
    obtain ⟨own, others⟩ := List.forall_mem_cons.1 members
    by_cases empty : rules = []
    · subst empty
      exact ih before unlimited others h
    · obtain ⟨report, r₁, reports', first, rest, -⟩ := evaluateStrata_cons empty h
      obtain ⟨f₁, after, settings₁⟩ := before.evaluateStratum monotone unlimited own first
      obtain ⟨f', last, settings⟩ := ih after (by rw [settings₁]; exact unlimited) others rest
      exact ⟨f', last, settings.trans settings₁⟩

/-- **An evaluation reaches the least closure of what was supplied**, whatever was derived before. -/
theorem Within.evaluate {report : ProgramReport} (before : r.Within p base f) (monotone : p.Monotone)
    (unlimited : r.settings.evaluation.maxRuleEvaluations = 0)
    (h : r.evaluate fuel p = some (.ok report, r')) :
    ∃ f', r'.Within p base f' ∧ r'.settings = r.settings ∧
      IsLeast (r.planner.closures p base) f'.model := by
  rcases evaluate_cases h with ⟨-, e, failed, -⟩ | ⟨strat, answer, valid, stratified, evaluated, ok⟩
  · cases failed
  cases answer with
  | error e => cases ok
  | ok reports =>
    have layered := (Program.isLeast_stratumOf stratified).1
    have listed := listsStrata_of_stratify stratified
    have members : ∀ e ∈ strat.strata.zipIdx, ∀ rule ∈ e.1, rule ∈ p := by
      intro e he rule hr
      have own := listed e.2
      rw [List.mem_zipIdx_iff_getElem?.1 he] at own
      split at own
      · rw [Option.some.inj own] at hr
        exact List.mem_of_mem_filter hr
      · cases own
    have counted : ({ r with counts := r.storedCounts } : Reasoner).Within p base f :=
      ⟨before.memory, before.contains, before.within⟩
    obtain ⟨f', after, settings⟩ := counted.evaluateStrata monotone unlimited members evaluated
    obtain ⟨f'', memory, -, -, finished⟩ := finished_of_evaluateStrata layered listed counted.memory
      unlimited evaluated
    have same : f'' = f' := Store.memory.inj (memory.symm.trans after.memory)
    subst same
    refine ⟨f'', after, settings, ⟨after.contains, fun rule member => ?_⟩, fun M hM => ?_⟩
    · exact (finished rule member (Nat.zero_le _)).saturated
    · refine after.within M ?_
      rwa [planner_of_settings settings]

/-! ### Runs -/

/-- The second reasoner comes from the first one by imports and by evaluations of the program, all of
which succeeded; the interpretation has the facts it started with and those of all batches. -/
inductive Supplied (p : Program) (r : Reasoner) : Interpretation → Reasoner → Prop
  | start : Supplied p r r.facts.model r
  | importBatch {M : Interpretation} {r₁ r₂ : Reasoner} {batch : Facts} {n : Nat}
      (before : Supplied p r M r₁) (imported : r₁.importBatch batch = (.ok n, r₂)) :
      Supplied p r (M ⊔ batch.model) r₂
  | evaluate {M : Interpretation} {r₁ r₂ : Reasoner} {fuel : Nat} {report : ProgramReport}
      (before : Supplied p r M r₁) (evaluated : r₁.evaluate fuel p = some (.ok report, r₂)) :
      Supplied p r M r₂

theorem Supplied.within {M : Interpretation} (supplied : Supplied p r M r') (monotone : p.Monotone)
    (memory : r.store = .memory f) (unlimited : r.settings.evaluation.maxRuleEvaluations = 0) :
    ∃ f', r'.Within p M f' ∧ r'.settings = r.settings := by
  induction supplied with
  | start =>
    have held : r.facts = f := by rw [facts, memory]; rfl
    rw [held]
    exact ⟨f, .start memory, rfl⟩
  | importBatch _ imported ih =>
    obtain ⟨f₁, within, settings₁⟩ := ih
    obtain ⟨f', after, settings⟩ := within.importBatch imported
    exact ⟨f', after, settings.trans settings₁⟩
  | evaluate _ evaluated ih =>
    obtain ⟨f₁, within, settings₁⟩ := ih
    obtain ⟨f', after, settings, -⟩ :=
      within.evaluate monotone (by rw [settings₁]; exact unlimited) evaluated
    exact ⟨f', after, settings.trans settings₁⟩

/-- After an evaluation, the relations are the least closure of what was supplied. -/
theorem Supplied.isLeast {M : Interpretation} {report : ProgramReport} {r'' : Reasoner}
    (supplied : Supplied p r M r') (monotone : p.Monotone)
    (memory : r.store = .memory f) (unlimited : r.settings.evaluation.maxRuleEvaluations = 0)
    (h : r'.evaluate fuel p = some (.ok report, r'')) :
    IsLeast (r.planner.closures p M) r''.facts.model := by
  obtain ⟨f', within, settings⟩ := supplied.within monotone memory unlimited
  obtain ⟨f'', after, -, least⟩ := within.evaluate monotone (by rw [settings]; exact unlimited) h
  rw [planner_of_settings settings] at least
  rw [facts, after.memory]
  exact least

/-- **What was supplied fixes the relations**: two runs over the same facts in memory, of reasoners that
plan alike but may differ in their strategies, end with the same relations after an evaluation. -/
theorem Supplied.relation_eq {s s' r₁ s₁ : Reasoner} {M : Interpretation} {fuel' : Nat}
    {report report' : ProgramReport} (ran : Supplied p r M r') (ran' : Supplied p s M s')
    (monotone : p.Monotone) {g : Facts} (memory : r.store = .memory f) (memory' : s.store = .memory g)
    (unlimited : r.settings.evaluation.maxRuleEvaluations = 0)
    (unlimited' : s.settings.evaluation.maxRuleEvaluations = 0) (alike : s.planner = r.planner)
    (h : r'.evaluate fuel p = some (.ok report, r₁))
    (h' : s'.evaluate fuel' p = some (.ok report', s₁)) (q : Predicate) :
    r₁.relation q = s₁.relation q := by
  have least := ran.isLeast monotone memory unlimited h
  have least' := ran'.isLeast monotone memory' unlimited' h'
  rw [alike] at least'
  exact Facts.scan_eq_of_model_eq (congrFun (least.unique least') q)

/-- **Incremental evaluation agrees with evaluation from scratch.** Over facts in memory and without a
limit on evaluations, importing a batch, evaluating a program that negates no stored predicate, importing
another batch and evaluating again, ends with the relations that importing both batches and evaluating
once ends with, whenever all of it succeeds. -/
theorem evaluate_between_imports {A B : Facts} {a b b' fuel₁ fuel₂ fuel₃ : Nat}
    {r₁ r₂ r₃ r₄ s₁ s₂ : Reasoner} {report₁ report₂ report₃ : ProgramReport}
    (memory : r.store = .memory f) (unlimited : r.settings.evaluation.maxRuleEvaluations = 0)
    (monotone : p.Monotone)
    (import_first : r.importBatch A = (.ok a, r₁))
    (evaluate_first : r₁.evaluate fuel₁ p = some (.ok report₁, r₂))
    (import_second : r₂.importBatch B = (.ok b, r₃))
    (evaluate_second : r₃.evaluate fuel₂ p = some (.ok report₂, r₄))
    (import_both : r₁.importBatch B = (.ok b', s₁))
    (evaluate_once : s₁.evaluate fuel₃ p = some (.ok report₃, s₂)) (q : Predicate) :
    r₄.relation q = s₂.relation q := by
  have given : Supplied p r (r.facts.model ⊔ A.model) r₁ := .importBatch .start import_first
  have incremental : Supplied p r (r.facts.model ⊔ A.model ⊔ B.model) r₃ :=
    .importBatch (.evaluate given evaluate_first) import_second
  have scratch : Supplied p r (r.facts.model ⊔ A.model ⊔ B.model) s₁ :=
    .importBatch given import_both
  exact incremental.relation_eq scratch monotone memory memory unlimited unlimited rfl
    evaluate_second evaluate_once q

/-- What is reached along roads, and a toll of five for each mile there. -/
def tollRules : Program :=
  [⟨.ofVars "reach" ["Y"], [.pos (.ofVars "reach" ["X"]), .pos (.ofVars "road" ["X", "Y"])]⟩,
    ⟨.ofVars "toll" ["X", "D"],
      [.pos (.ofVars "reach" ["X"]), .pos (.new "MULTIPLY" [.var "X", .int 5, .var "D"])]⟩]

/-- Roads with a gap, and where they start. -/
def firstRoads : Facts := Facts.ofList
  [(⟨"reach", 1⟩, SortedSet.ofList [.ofInts [2]]), (⟨"road", 2⟩, SortedSet.ofList [.ofInts [3, 4]])]

/-- The road that closes it. -/
def secondRoads : Facts := Facts.ofList [(⟨"road", 2⟩, SortedSet.ofList [.ofInts [2, 3]])]

/-- The second road comes after an evaluation that ends before the gap, and the tolls are those of all
roads. -/
theorem tollRules_between_imports :
    emptyReasoner.store = .memory ∅ ∧
    emptyReasoner.settings.evaluation.maxRuleEvaluations = 0 ∧ tollRules.Monotone ∧
    ∃ a r₁ report₁ r₂ b r₃ report₂ r₄ b' s₁ report₃ s₂,
      emptyReasoner.importBatch firstRoads = (.ok a, r₁) ∧
      r₁.evaluate 9 tollRules = some (.ok report₁, r₂) ∧ r₂.importBatch secondRoads = (.ok b, r₃) ∧
      r₃.evaluate 9 tollRules = some (.ok report₂, r₄) ∧ r₁.importBatch secondRoads = (.ok b', s₁) ∧
      s₁.evaluate 9 tollRules = some (.ok report₃, s₂) ∧
      (r₂.relation ⟨"toll", 2⟩).toList = [Tuple.ofInts [2, 10]] ∧
      (r₄.relation ⟨"toll", 2⟩).toList =
        [Tuple.ofInts [2, 10], Tuple.ofInts [3, 15], Tuple.ofInts [4, 20]] ∧
      ∀ q, r₄.relation q = s₂.relation q := by
  have monotone : tollRules.Monotone := Program.monotone_of_positive (by decide)
  have incremental : ((emptyReasoner.importBatch firstRoads).2.evaluate 9 tollRules).bind (fun early =>
      ((early.2.importBatch secondRoads).2.evaluate 9 tollRules).map fun late =>
        ((early.1.isOk, (early.2.relation ⟨"toll", 2⟩).toList),
          late.1.isOk, (late.2.relation ⟨"toll", 2⟩).toList)) =
      some ((true, [Tuple.ofInts [2, 10]]),
        true, [Tuple.ofInts [2, 10], Tuple.ofInts [3, 15], Tuple.ofInts [4, 20]]) := by decide +kernel
  have scratch : (((emptyReasoner.importBatch firstRoads).2.importBatch secondRoads).2.evaluate 9
      tollRules).map (·.1.isOk) = some true := by decide +kernel
  obtain ⟨f₁, first, -⟩ := importBatch_memory (r := emptyReasoner) rfl firstRoads
  rw [first] at incremental scratch
  obtain ⟨⟨result₁, r₂⟩, early, rest⟩ := Option.bind_eq_some_iff.1 incremental
  obtain ⟨⟨result₂, r₄⟩, late, answered⟩ := Option.map_eq_some_iff.1 rest
  obtain ⟨⟨result₃, s₂⟩, once, ok₃⟩ := Option.map_eq_some_iff.1 scratch
  simp only [Prod.mk.injEq] at answered
  obtain ⟨⟨ok₁, listed₁⟩, ok₂, listed₂⟩ := answered
  cases result₁ with
  | error e => cases ok₁
  | ok report₁ =>
    cases result₂ with
    | error e => cases ok₂
    | ok report₂ =>
      cases result₃ with
      | error e => cases ok₃
      | ok report₃ =>
        have given : Supplied tollRules emptyReasoner _ r₂ :=
          .evaluate (.importBatch .start first) early
        obtain ⟨f₂, within, -⟩ := given.within monotone rfl rfl
        obtain ⟨_, second, -⟩ := importBatch_memory within.memory secondRoads
        obtain ⟨_, both, -⟩ :=
          importBatch_memory (r := { emptyReasoner with store := .memory f₁ }) rfl secondRoads
        rw [second] at late
        rw [both] at once
        refine ⟨rfl, rfl, monotone, _, _, report₁, r₂, _, _, report₂, r₄, _, _,
          report₃, s₂, first, early, second, late, both, once, listed₁, listed₂, ?_⟩
        exact evaluate_between_imports rfl rfl monotone first early second late both once

end Reasoner

end Datalog
