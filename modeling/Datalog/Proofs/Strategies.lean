import Datalog.Proofs.CompiledRules
import Datalog.Proofs.Fixpoint

/-!
# The strategies agree on compiled rules

A compiled rule can be called again for new tuples only (`CompiledRule.incremental`), so both
strategies bring compiled rules to the least store that has what the rules return. With negation a
store may have to be larger in one predicate or in another; the least one is meant among those that
leave the negated predicates as they are, which no head of the rules adds to.

A rule fails on facts in which some tuple has not the arity of its predicate. As long as the heads of the
rules have the arities that their predicates say, no such tuple is ever added; otherwise a run may add one
and then fail, with all that it has added so far in the least store.
-/

namespace Datalog

/-- Facts that have the same tuples as older ones in the settled predicates. -/
def Facts.Continues (base : Facts) (settled : Predicate → Prop) (f : Facts) : Prop :=
  ∀ p, settled p → f.model p = base.model p

theorem Facts.Continues.refl (f : Facts) (settled : Predicate → Prop) : f.Continues settled f :=
  fun _ _ => rfl

/-- Tuples of a predicate that is not settled may be added. -/
theorem Facts.Continues.add {base f : Facts} {settled : Predicate → Prop}
    (continues : base.Continues settled f) {p : Predicate} (open_head : ¬settled p) (r : Relation) :
    base.Continues settled (f.add p r) := by
  intro q settled_q
  have ne : q ≠ p := by
    rintro rfl
    exact open_head settled_q
  rw [← continues q settled_q]
  exact congrArg (fun r : Relation => {t | t ∈ r}) (scan_add_of_ne f r ne)

/-- The tuples that have the arity of their predicate. -/
def Facts.right (f : Facts) : Facts := f.map fun p r => r.filter fun t => t.arity = p.arity

theorem Facts.mem_model_right {f : Facts} {p : Predicate} {t : Tuple} :
    t ∈ f.right.model p ↔ t ∈ f.model p ∧ t.arity = p.arity := by
  rw [mem_model, mem_model, right, scan, scan, SortedMap.getD, SortedMap.getD, SortedMap.get?_map]
  cases f.get? p with
  | none => exact iff_of_false SortedSet.not_mem_empty fun h => SortedSet.not_mem_empty h.1
  | some r => simp

theorem Facts.hasArities_right (f : Facts) : f.right.HasArities := fun _ _ ht => (mem_model_right.1 ht).2

namespace CompiledRule

variable {r : Rule} {c : CompiledRule} {f : Facts} {out : Relation}

theorem head_of_compile (h : r.compile = .ok c) : c.head = r.headPredicate := by
  rw [head, (Rule.forBody_of_compile h).1]

/-- A compiled rule answers what it derives, on the facts on which it is accepted. -/
theorem answers_iff (h : r.compile = .ok c) :
    c.toEvaluable.Answers f out ↔ r.Accepted f.model ∧ ∀ t, t ∈ out ↔ r.Derives f.model t := by
  constructor
  · intro answers
    obtain ⟨env', answer⟩ := answers {} {}
    exact of_evaluate_ok h answer
  · rintro ⟨accepted, members⟩ ctx env
    obtain ⟨out', env', answer, members'⟩ := evaluate_accepted h ctx accepted env
    have same : out' = out := SortedSet.ext_mem fun t => by rw [members, members']
    exact ⟨env', same ▸ answer⟩

/-- Whatever it is called for, a compiled rule returns what it derives from the facts. -/
theorem derives_of_mayGive (h : r.compile = .ok c) (gives : c.toEvaluable.MayGive f (.ok out)) {t : Tuple}
    (ht : t ∈ out) : r.Derives f.model t := by
  obtain ⟨ctx, deltas, env, env', stored, answer⟩ := gives
  cases deltas with
  | none => exact ((of_evaluate_ok h answer).2 t).1 ht
  | some new =>
    have derived := ((of_evaluateDelta_ok h answer).2 t).1 ht
    exact derived.derives fun l _ _ => stored new rfl l.predicate

/-- Whatever it is called for, a compiled rule fails for a stored tuple only that has not its arity. -/
theorem mismatch_of_mayGive (h : r.compile = .ok c) {e : EngineError}
    (gives : c.toEvaluable.MayGive f (.error e)) : e.Mismatch f.model := by
  obtain ⟨ctx, deltas, env, env', stored, failed⟩ := gives
  cases deltas with
  | none => exact of_evaluate_error h failed
  | some new => exact of_evaluateDelta_error h failed f.model le_rfl (stored new rfl)

/-- Whatever it is called for, the facts of the right arities are enough for what it returns. -/
theorem derives_right_of_mayGive (h : r.compile = .ok c) (gives : c.toEvaluable.MayGive f (.ok out))
    {t : Tuple} (ht : t ∈ out) : r.Derives f.right.model t ∧
      ∀ l ∈ r.body, l.NegatesStored → f.right.model l.predicate = f.model l.predicate := by
  -- Each literal reads stored tuples, which have their arity because the rule came to all of them.
  have enough (M : Nat → Interpretation) (accepted : r.AcceptedIn M) (derives : r.DerivesIn M t)
      (stored : ∀ i l, r.body[i]? = some l → M i l.predicate ⊆ f.model l.predicate)
      (negated : ∀ i l, r.body[i]? = some l → l.NegatesStored → M i l.predicate = f.model l.predicate) :
      r.Derives f.right.model t ∧
        ∀ l ∈ r.body, l.NegatesStored → f.right.model l.predicate = f.model l.predicate := by
    have right {i : Nat} {l : Literal} (member : r.body[i]? = some l) (is_stored : l.builtin? = none) :
        M i l.predicate ⊆ f.right.model l.predicate := fun u hu =>
      Facts.mem_model_right.2 ⟨stored i l member hu, accepted.right derives member is_stored u hu⟩
    constructor
    · obtain ⟨σ, sat, head⟩ := derives
      rw [← Rule.derivesIn_const]
      refine ⟨σ, sat.imp fun i l member holds => holds.mono (fun joinable => ?_) fun neg => ?_, head⟩
      · exact right member (Literal.isJoinable_iff.1 joinable).1
      · rw [negated i l member neg]
        exact fun u hu => (Facts.mem_model_right.1 hu).1
    · intro l hl neg
      obtain ⟨i, member⟩ := List.mem_iff_getElem?.1 hl
      refine le_antisymm (fun u hu => (Facts.mem_model_right.1 hu).1) ?_
      rw [← negated i l member neg]
      exact right member neg.1
  obtain ⟨ctx, deltas, env, env', stored, answer⟩ := gives
  cases deltas with
  | none =>
    obtain ⟨accepted, members⟩ := of_evaluate_ok h answer
    exact enough _ accepted (Rule.derivesIn_const.2 ((members t).1 ht)) (fun _ _ _ => le_rfl)
      fun _ _ _ _ => rfl
  | some new =>
    obtain ⟨accepts, members⟩ := of_evaluateDelta_ok h answer
    obtain ⟨i, l, hl, joinable, derives⟩ := (members t).1 ht
    refine enough _ (accepts i l hl joinable (derives.nonempty_new hl joinable)) derives ?_ ?_
    · intro j l' _
      split
      · exact stored new rfl l'.predicate
      · exact le_rfl
    · intro j l' member neg
      split
      · next at_i =>
        rw [at_i, hl] at member
        cases member
        exact absurd ((Literal.isJoinable_iff.1 joinable).2.symm.trans neg.2) (by simp)
      · rfl

/-- A compiled rule is incremental on facts that leave what it negates as it is. -/
theorem incremental (h : r.compile = .ok c) {base : Facts} {settled : Predicate → Prop}
    (negated : ∀ l ∈ r.body, l.NegatesStored → settled l.predicate)
    (open_head : ¬settled r.headPredicate) : c.toEvaluable.Incremental (base.Continues settled) where
  same f good ctx env out env' answer := (answers_iff h).2 (of_evaluate_ok h answer)
  keeps f good out := by
    have same_head : c.toEvaluable.head = r.headPredicate := head_of_compile h
    rw [same_head]
    exact good.add open_head out
  local_reads f g good good' same out answers := by
    have same_stored : ∀ (i : Nat) (l : Literal), r.body[i]? = some l → l.builtin? = none →
        f.model l.predicate = g.model l.predicate := by
      intro i l member stored
      have in_body : l ∈ r.body := List.mem_of_getElem? member
      cases positive : l.positive with
      | true =>
        exact same _ ((mem_reads h).2 ⟨l, in_body, Literal.isJoinable_iff.2 ⟨stored, positive⟩, rfl⟩)
      | false =>
        have fixed := negated l in_body ⟨stored, positive⟩
        rw [good _ fixed, good' _ fixed]
    obtain ⟨accepted, members⟩ := (answers_iff h).1 answers
    refine (answers_iff h).2 ⟨accepted.congr same_stored, fun t => (members t).trans ?_⟩
    rw [← Rule.derivesIn_const, ← Rule.derivesIn_const, Rule.derivesIn_congr same_stored]
  complete_new old f new good good' older stored lacks before answers ctx env out env' answer := by
    obtain ⟨accepted, members⟩ := (answers_iff h).1 answers
    obtain ⟨more, new_members⟩ := of_evaluateDelta_ok h answer
    have cover : ∀ l ∈ r.body, l.isJoinable = true →
        f.model l.predicate ⊆ old.model l.predicate ∪ new.model l.predicate :=
      fun l hl joinable => lacks l.predicate ((mem_reads h).2 ⟨l, hl, joinable, rfl⟩)
    have same_negated : ∀ l ∈ r.body, l.NegatesStored → f.model l.predicate = old.model l.predicate := by
      intro l hl neg
      have fixed := negated l hl neg
      rw [good' _ fixed, good _ fixed]
    obtain ⟨all, env'', evaluated, all_members⟩ := evaluate_accepted h ctx
      (Rule.accepted_of_old_of_new cover same_negated accepted more) env
    refine ⟨all, (answers_iff h).2 (of_evaluate_ok h evaluated), fun t ht => ?_⟩
    rcases ((all_members t).1 ht).new_or_old cover fun l hl neg => (same_negated l hl neg).ge with
      was_there | is_new
    · exact .inl ((members t).2 was_there)
    · exact .inr ((new_members t).2 is_new)

end CompiledRule

/-! ### The least store -/

/-- A rule of the list denies tuples of the predicate. -/
def NegatedBy (rules : List CompiledRule) (p : Predicate) : Prop :=
  ∃ c ∈ rules, ∃ l ∈ c.rule.body, l.NegatesStored ∧ l.predicate = p

/-- The interpretation has whatever the rules return on facts that are within it and have all its
tuples of the predicates that the rule negates. -/
def Interpretation.ClosedUnderEvaluation (rules : List CompiledRule) (M : Interpretation) : Prop :=
  ∀ c ∈ rules, ∀ f : Facts, f.model ≤ M →
    (∀ l ∈ c.rule.body, l.NegatesStored → f.model l.predicate = M l.predicate) →
    ∀ ctx engine out, (c.evaluate ctx f engine).1 = .ok out → ∀ t ∈ out, t ∈ M c.head

/-- The interpretations that have the tuples of a store and what the rules return, and leave the
negated predicates as they are. -/
def ClosedExtensions (rules : List CompiledRule) (init : Facts) : Set Interpretation :=
  {M | Interpretation.Extension init.model (NegatedBy rules) M ∧
    Interpretation.ClosedUnderEvaluation rules M}

section Least

variable {rules : List CompiledRule} {init : Facts}

/-- There is a least closed extension, finite or not. -/
theorem exists_isLeast_closedExtensions
    (apart : ∀ p, NegatedBy rules p → ∀ c ∈ rules, c.head ≠ p) :
    ∃ L, IsLeast (ClosedExtensions rules init) L := by
  classical
  -- All tuples in all predicates that are not negated are certainly enough.
  let top : Interpretation := fun p => if NegatedBy rules p then init.model p else Set.univ
  have enough : top ∈ ClosedExtensions rules init := by
    refine ⟨⟨fun p t ht => ?_, fun p neg => if_pos neg⟩, fun c hc f _ _ _ _ _ _ t _ => ?_⟩
    · by_cases neg : NegatedBy rules p
      · simpa [top, neg] using ht
      · simp [top, neg]
    · have open_head : ¬NegatedBy rules c.head := fun neg => apart _ neg c hc rfl
      simp [top, open_head]
  let L : Interpretation := fun p => {t | ∀ M ∈ ClosedExtensions rules init, t ∈ M p}
  have below : ∀ M ∈ ClosedExtensions rules init, L ≤ M := fun M hM p t ht => ht M hM
  refine ⟨L, ⟨⟨fun p t ht M hM => hM.1.contains p ht, fun p neg => ?_⟩, ?_⟩, below⟩
  · refine le_antisymm ?_ fun t ht M hM => hM.1.contains p ht
    rw [← enough.1.keeps p neg]
    exact below top enough p
  · intro c hc f within fixed ctx engine out answer t ht M hM
    refine hM.2 c hc f (within.trans (below M hM)) (fun l hl neg => ?_) ctx engine out answer t ht
    have negated : NegatedBy rules l.predicate := ⟨c, hc, l, hl, neg, rfl⟩
    rw [fixed l hl neg]
    refine le_antisymm (below M hM _) fun t ht M' hM' => ?_
    rw [hM'.1.keeps _ negated, ← hM.1.keeps _ negated]
    exact ht

/-- Compiled rules none of which negates a head are incremental on the stores that a run goes
through. -/
theorem incremental_of_apart (compiled : ∀ c ∈ rules, ∃ r : Rule, r.compile = .ok c)
    (apart : ∀ p, NegatedBy rules p → ∀ c ∈ rules, c.head ≠ p) :
    ∀ rule ∈ rules.map CompiledRule.toEvaluable,
      rule.Incremental (init.Continues (NegatedBy rules)) := by
  intro rule hrule
  obtain ⟨c, hc, rfl⟩ := List.mem_map.1 hrule
  obtain ⟨r, h⟩ := compiled c hc
  obtain ⟨rule_eq, -⟩ := Rule.forBody_of_compile h
  refine c.incremental h (fun l hl neg => ⟨c, hc, l, by rwa [rule_eq], neg, rfl⟩) fun negated => ?_
  exact apart _ negated c hc (CompiledRule.head_of_compile h)

/-- A closed extension has what the rules return on the stores that a run goes through. -/
theorem closedIn_of_mem (compiled : ∀ c ∈ rules, ∃ r : Rule, r.compile = .ok c) {M : Interpretation}
    (hM : M ∈ ClosedExtensions rules init) :
    init.model ≤ M ∧ ∀ rule ∈ rules.map CompiledRule.toEvaluable,
      rule.ClosedIn (init.Continues (NegatedBy rules)) M := by
  refine ⟨hM.1.contains, fun rule hrule f good below out gives t ht => ?_⟩
  obtain ⟨c, hc, rfl⟩ := List.mem_map.1 hrule
  obtain ⟨r, h⟩ := compiled c hc
  obtain ⟨rule_eq, -⟩ := Rule.forBody_of_compile h
  -- A rule that is called for new tuples may fail against all facts, but not on the right ones.
  obtain ⟨derives, same_negated⟩ := CompiledRule.derives_right_of_mayGive h gives ht
  obtain ⟨all, engine', evaluated, members⟩ := CompiledRule.evaluate_ok h {} f.hasArities_right {}
  refine hM.2 c hc f.right (fun p u hu => below p (Facts.mem_model_right.1 hu).1) (fun l hl neg => ?_)
    {} {} all (congrArg Prod.fst evaluated) t ((members t).2 derives)
  have negated : NegatedBy rules l.predicate := ⟨c, hc, l, hl, neg, rfl⟩
  rw [same_negated l (rule_eq ▸ hl) neg, good _ negated, hM.1.keeps _ negated]

/-- What a run leaves is a closed extension, once no rule returns more. -/
theorem mem_closedExtensions_of_saturated (compiled : ∀ c ∈ rules, ∃ r : Rule, r.compile = .ok c)
    {run : Run Engine Facts}
    (g : run.Growth (fun _ => True) (init.Continues (NegatedBy rules))
      (rules.map CompiledRule.toEvaluable) init)
    (saturated : ∀ rule ∈ rules.map CompiledRule.toEvaluable, run.Saturated rule) :
    run.store.model ∈ ClosedExtensions rules init := by
  refine ⟨⟨g.contains, g.good⟩, fun c hc f below fixed ctx engine out answer t ht => ?_⟩
  obtain ⟨r, h⟩ := compiled c hc
  obtain ⟨rule_eq, -⟩ := Rule.forBody_of_compile h
  obtain ⟨all, answers, stored⟩ := saturated _ (List.mem_map_of_mem hc)
  have derives : r.Derives f.model t := ((CompiledRule.of_evaluate_ok h (Prod.ext answer rfl)).2 t).1 ht
  have derives' : r.Derives run.store.model t :=
    derives.mono (fun l _ _ => below l.predicate) fun l hl neg => (fixed l (rule_eq ▸ hl) neg).ge
  exact stored t ((((CompiledRule.answers_iff h).1 answers).2 t).2 derives')

/-- As long as heads have the arities that their predicates say, so have the facts. -/
theorem hasArities_of_growth (compiled : ∀ c ∈ rules, ∃ r : Rule, r.compile = .ok c)
    (fits : ∀ c ∈ rules, c.rule.head.Fits) (arities : init.HasArities) {Good : Facts → Prop}
    {τ : Type} [FactStore τ] {Kind : τ → Prop} {run : Run Engine τ}
    (g : run.Growth Kind Good (rules.map CompiledRule.toEvaluable) init) : run.facts.HasArities := by
  refine g.within (fun p => {t | t.arity = p.arity}) arities fun rule hrule f _ _ out gives t ht => ?_
  obtain ⟨c, hc, rfl⟩ := List.mem_map.1 hrule
  obtain ⟨r, h⟩ := compiled c hc
  have rule_eq := (Rule.forBody_of_compile h).1
  have same_head : c.toEvaluable.head = r.headPredicate := CompiledRule.head_of_compile h
  rw [same_head]
  exact (CompiledRule.derives_of_mayGive h gives ht).arity (rule_eq ▸ fits c hc)

/-- A run of compiled rules fails for a stored tuple only that has not its arity. -/
theorem mismatch_of_growth (compiled : ∀ c ∈ rules, ∃ r : Rule, r.compile = .ok c) {Good : Facts → Prop}
    {τ : Type} [FactStore τ] {Kind : τ → Prop} {run : Run Engine τ}
    (g : run.Growth Kind Good (rules.map CompiledRule.toEvaluable) init) {e : EngineError}
    (failed : run.failure = some e) : e.Mismatch run.facts.model := by
  obtain ⟨rule, hrule, gives⟩ := g.failed e failed
  obtain ⟨c, hc, rfl⟩ := List.mem_map.1 hrule
  obtain ⟨r, h⟩ := compiled c hc
  exact CompiledRule.mismatch_of_mayGive h gives

/-- **The strategies agree.** Take compiled rules none of which negates a head of the list. There is a
least store that extends the first one and has what the rules return, possibly infinite. A run of either
strategy stays between the first store and the least one; without a limit on evaluations it ends in the
least one, unless it fails. It fails for a stored tuple only that has not the arity of its predicate, and
never if the tuples of the first store and the heads have the arities that their predicates say. So the
two strategies, when both end without a failure, leave the same tuples and report the same ones as
new. -/
theorem strategies_reach_least_store (compiled : ∀ c ∈ rules, ∃ r : Rule, r.compile = .ok c)
    (apart : ∀ p, NegatedBy rules p → ∀ c ∈ rules, c.head ≠ p) :
    ∃ L, IsLeast (ClosedExtensions rules init) L ∧
      (∀ (strategy : Strategy) (limits : Limits) (fuel stratum : Nat) (engine : Engine)
        (run : Run Engine Facts),
        strategy.evaluate fuel limits stratum (rules.map CompiledRule.toEvaluable) init engine =
          some run →
        init.model ≤ run.store.model ∧ run.store.model ≤ L ∧
          (limits.maxEvaluations = 0 → run.failure = none → run.store.model = L) ∧
          (∀ e, run.failure = some e → e.Mismatch run.store.model) ∧
          (init.HasArities → (∀ c ∈ rules, c.rule.head.Fits) → run.failure = none)) ∧
      ∀ (fuel fuel' stratum stratum' : Nat) (engine engine' : Engine) (plain optimised : Run Engine Facts),
        Strategy.naive.evaluate fuel {} stratum (rules.map CompiledRule.toEvaluable) init engine =
          some plain →
        Strategy.dependency.evaluate fuel' {} stratum' (rules.map CompiledRule.toEvaluable) init engine' =
          some optimised →
        plain.failure = none → optimised.failure = none →
        (∀ p, plain.store.scan p = optimised.store.scan p) ∧
          plain.report.derived = optimised.report.derived ∧
          plain.report.newFacts = optimised.report.newFacts := by
  have incremental : ∀ rule ∈ rules.map CompiledRule.toEvaluable,
      rule.Incremental (init.Continues (NegatedBy rules)) := incremental_of_apart compiled apart
  have good : init.Continues (NegatedBy rules) init := .refl _ _
  obtain ⟨L, least⟩ : ∃ L, IsLeast (ClosedExtensions rules init) L :=
    exists_isLeast_closedExtensions apart
  have runs (strategy : Strategy) (limits : Limits) (fuel stratum : Nat) (engine : Engine)
      (run : Run Engine Facts)
      (h : strategy.evaluate fuel limits stratum (rules.map CompiledRule.toEvaluable) init engine =
        some run) :
      run.Growth (fun _ => True) (init.Continues (NegatedBy rules))
        (rules.map CompiledRule.toEvaluable) init ∧
      run.store.model ≤ L ∧ (limits.maxEvaluations = 0 → run.failure = none → run.store.model = L) := by
    obtain ⟨growth, saturated⟩ := Strategy.evaluate_spec Facts.reliable incremental trivial good h
    obtain ⟨contains, closed⟩ := closedIn_of_mem compiled least.1
    have below := growth.within L contains closed
    refine ⟨growth, below, fun unlimited ok => le_antisymm below (least.2 ?_)⟩
    exact mem_closedExtensions_of_saturated compiled growth (saturated unlimited ok)
  refine ⟨L, least, fun strategy limits fuel stratum engine run h => ?_, ?_⟩
  · obtain ⟨growth, below, reached⟩ := runs strategy limits fuel stratum engine run h
    refine ⟨growth.contains, below, reached, fun e => mismatch_of_growth compiled growth,
      fun arities fits => ?_⟩
    cases failed : run.failure with
    | none => rfl
    | some e =>
      obtain ⟨context, p, t, ht, wrong, -⟩ := mismatch_of_growth compiled growth failed
      exact absurd (hasArities_of_growth compiled fits arities growth p t ht) wrong
  · intro fuel fuel' stratum stratum' engine engine' plain optimised h h' ok ok'
    obtain ⟨growth, -, reached⟩ := runs _ _ _ _ _ _ h
    obtain ⟨growth', -, reached'⟩ := runs _ _ _ _ _ _ h'
    have same : plain.store.model = optimised.store.model :=
      (reached rfl ok).trans (reached' rfl ok').symm
    have same_new : plain.facts.since init = optimised.facts.since init := Facts.since_congr same
    refine ⟨fun p => Facts.scan_eq_of_model_eq (congrFun same p), ?_, ?_⟩
    · rw [growth.derived, growth'.derived, same_new]
    · rw [growth.newFacts, growth'.newFacts, same_new]

end Least

/-- Towns are reached along roads from the start, unless they are closed. -/
def reachRules : List Rule :=
  [⟨.ofVars "reach" ["X"], [.pos (.ofVars "start" ["X"])]⟩,
    ⟨.ofVars "reach" ["Y"], [.pos (.ofVars "reach" ["X"]), .pos (.ofVars "road" ["X", "Y"]),
      .neg (.ofVars "closed" ["Y"])]⟩]

/-- A road from the start through two more towns to a closed one. -/
def roads : Facts := Facts.ofList
  [(⟨"start", 1⟩, SortedSet.ofList [.ofInts [1]]),
    (⟨"road", 2⟩, SortedSet.ofList [.ofInts [1, 2], .ofInts [2, 3], .ofInts [3, 4]]),
    (⟨"closed", 1⟩, SortedSet.ofList [.ofInts [4]])]

/-- The rules that compile. -/
def compiledOf (rs : List Rule) : List CompiledRule := rs.filterMap fun r => r.compile.toOption

theorem mem_compiledOf {rs : List Rule} {c : CompiledRule} :
    c ∈ compiledOf rs ↔ ∃ r ∈ rs, r.compile = .ok c := by
  have compiles (r : Rule) : r.compile.toOption = some c ↔ r.compile = .ok c := by
    cases r.compile <;> simp [Except.toOption]
  simp [compiledOf, compiles]

theorem hasArities_roads : roads.HasArities := Facts.hasArities_ofList (by decide)

/-- The least store reaches the towns before the closed one. -/
theorem least_store_of_reachRules :
    (∀ c ∈ compiledOf reachRules, ∃ r : Rule, r.compile = .ok c) ∧
    (∀ p, NegatedBy (compiledOf reachRules) p → ∀ c ∈ compiledOf reachRules, c.head ≠ p) ∧
    roads.HasArities ∧
    ∃ L, IsLeast (ClosedExtensions (compiledOf reachRules) roads) L ∧
      L ⟨"reach", 1⟩ = {t | t ∈ [Tuple.ofInts [1], .ofInts [2], .ofInts [3]]} := by
  have compiled : ∀ c ∈ compiledOf reachRules, ∃ r : Rule, r.compile = .ok c := by
    intro c hc
    obtain ⟨r, -, h⟩ := mem_compiledOf.1 hc
    exact ⟨r, h⟩
  have apart : ∀ p, NegatedBy (compiledOf reachRules) p →
      ∀ c ∈ compiledOf reachRules, c.head ≠ p := by
    rintro p ⟨c, hc, l, hl, ⟨-, neg⟩, rfl⟩ c' hc'
    obtain ⟨r, hr, h⟩ := mem_compiledOf.1 hc
    obtain ⟨r', hr', h'⟩ := mem_compiledOf.1 hc'
    rw [(Rule.forBody_of_compile h).1] at hl
    rw [CompiledRule.head_of_compile h']
    have heads : ∀ r ∈ reachRules, ∀ r' ∈ reachRules, ∀ l ∈ r.body, l.positive = false →
        r'.headPredicate ≠ l.predicate := by decide
    exact heads r hr r' hr' l hl neg
  obtain ⟨L, least, reached, -⟩ := strategies_reach_least_store compiled apart
  have evaluated : ((Strategy.dependency.evaluate 5 {} 0
      ((compiledOf reachRules).map CompiledRule.toEvaluable) roads {}).map fun run =>
        (run.store.scan ⟨"reach", 1⟩).toList) =
      some [Tuple.ofInts [1], .ofInts [2], .ofInts [3]] := by decide +kernel
  obtain ⟨run, h, listed⟩ := Option.map_eq_some_iff.1 evaluated
  obtain ⟨-, -, same, -, never⟩ := reached _ _ _ _ _ _ h
  have fits : ∀ c ∈ compiledOf reachRules, c.rule.head.Fits := by
    intro c hc
    obtain ⟨r, hr, h⟩ := mem_compiledOf.1 hc
    rw [(Rule.forBody_of_compile h).1]
    have all_fit : ∀ r ∈ reachRules, r.head.Fits := by decide
    exact all_fit r hr
  refine ⟨compiled, apart, hasArities_roads, L, least, ?_⟩
  rw [← same rfl (never hasArities_roads fits), ← listed]
  rfl

end Datalog
