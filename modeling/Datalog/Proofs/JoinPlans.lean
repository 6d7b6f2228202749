import Datalog.Proofs.CompiledRules
import Datalog.Proofs.JoinSearch
import Datalog.Proofs.Placement

/-!
# What planning keeps

A planned rule has the body literals of the rule in another order (`JoinPlanner.plan_perm`): every
order that is searched is one of all positive stored literals, and merging the others into it drops
none. A rule fires in any order of its body or in none. So two orders of a body can differ in one
point only, products: a product that is checked in one order and has to find a factor in the other
says nothing there when the other factor is zero.
-/

namespace Datalog

namespace JoinPlanner

/-- The planner looks for an order of the body. -/
def Searches (planner : JoinPlanner) (r : Rule) : Prop :=
  planner.reorder = true ∧ 1 < r.body.length ∧
    (r.body.filter Literal.isJoinable).length ≤ planner.maxLiterals

variable {planner : JoinPlanner} {r : Rule}

theorem run_of_searches (searches : planner.Searches r) :
    let joins := r.body.filter Literal.isJoinable
    let body := JoinOrder.interleave (JoinOrder.chosen joins).1 (r.body.filter fun l => !l.isJoinable)
    planner.run r = ⟨{ r with body }, joins.length, (JoinOrder.allPaths joins).length,
      JoinOrder.score joins, (JoinOrder.chosen joins).2, body ≠ r.body⟩ := by
  obtain ⟨reorder, several, few⟩ := searches
  unfold run
  rw [List.partition_eq_filter_filter]
  dsimp only
  rw [if_neg (by simp [reorder, several, few])]
  rfl

theorem run_of_not_searches (given : ¬planner.Searches r) :
    let joins := r.body.filter Literal.isJoinable
    planner.run r =
      ⟨r, joins.length, 0, JoinOrder.score joins, JoinOrder.score joins, false⟩ := by
  have skipped : (!planner.reorder || r.body.length ≤ 1 ||
      planner.maxLiterals < (r.body.filter Literal.isJoinable).length) = true := by
    by_contra searched
    refine given ?_
    simpa [Searches, and_assoc] using searched
  unfold run
  rw [List.partition_eq_filter_filter]
  dsimp only
  rw [if_pos skipped]

/-- A body that is searched becomes an order of its joins with the rest merged in. -/
theorem plan_of_searches (searches : planner.Searches r) :
    ∃ order : List Literal, order.Perm (r.body.filter Literal.isJoinable) ∧
      planner.plan r =
        { r with body := JoinOrder.interleave order (r.body.filter fun l => !l.isJoinable) } :=
  ⟨_, (JoinOrder.chosen_mem _).1, congrArg JoinPlan.rule (run_of_searches searches)⟩

theorem plan_of_not_searches (given : ¬planner.Searches r) : planner.plan r = r :=
  congrArg JoinPlan.rule (run_of_not_searches given)

/-- A plan reorders the body and changes nothing else. -/
theorem plan_perm (planner : JoinPlanner) (r : Rule) :
    (planner.plan r).head = r.head ∧ (planner.plan r).body.Perm r.body := by
  by_cases searches : planner.Searches r
  · obtain ⟨order, perm, planned⟩ := plan_of_searches searches
    rw [planned]
    refine ⟨rfl, (JoinOrder.merges_interleaveFrom [] _ order).perm.trans ?_⟩
    exact (perm.append_right _).trans (List.filter_append_perm _ _)
  · rw [plan_of_not_searches searches]
    exact ⟨rfl, .refl _⟩

end JoinPlanner

namespace Rule

variable {r r' : Rule} {M : Interpretation} {t : Tuple}

/-- A rule derives, in another order of its body, the head instances where it fires and where that
order leaves no product undetermined. -/
theorem derives_of_perm (head : r'.head = r.head) (perm : r'.body.Perm r.body) :
    r'.Derives M t ↔
      ∃ σ, r.FiresIn M σ ∧ Literal.Determined σ [] r'.body ∧ r.headInstance σ = t := by
  have fires (σ : Substitution) : r'.FiresIn M σ ↔ r.FiresIn M σ := by
    unfold FiresIn
    constructor
    · intro h l hl
      exact h l (perm.mem_iff.2 hl)
    · intro h l hl
      exact h l (perm.mem_iff.1 hl)
  have instances (σ : Substitution) : r'.headInstance σ = r.headInstance σ := by
    rw [headInstance, head]
    rfl
  unfold Derives
  simp only [fires, instances]

/-- The rule fires for the tuple, but whenever it does, some product has to find a factor beside a
zero when the body is evaluated in the given order. -/
def LostIn (M : Interpretation) (r : Rule) (order : List Literal) (t : Tuple) : Prop :=
  (∃ σ, r.FiresIn M σ ∧ r.headInstance σ = t) ∧
    ∀ σ, r.FiresIn M σ → r.headInstance σ = t → ¬Literal.Determined σ [] order

/-- An order derives all that the rule fires for, but what is lost in it. -/
theorem derives_iff_not_lostIn (head : r'.head = r.head) (perm : r'.body.Perm r.body) :
    r'.Derives M t ↔ (∃ σ, r.FiresIn M σ ∧ r.headInstance σ = t) ∧ ¬r.LostIn M r'.body t := by
  rw [derives_of_perm head perm]
  constructor
  · rintro ⟨σ, fires, determined, instance_eq⟩
    exact ⟨⟨σ, fires, instance_eq⟩, fun lost => lost.2 σ fires instance_eq determined⟩
  · rintro ⟨fires, kept⟩
    by_contra none
    refine kept ⟨fires, fun σ fires' instance_eq determined => none ?_⟩
    exact ⟨σ, fires', determined, instance_eq⟩

theorem not_lostIn_of_no_products {order : List Literal}
    (no_products : ∀ l ∈ order, l.builtin? ≠ some .multiply) : ¬r.LostIn M order t := by
  rintro ⟨⟨σ, fires, instance_eq⟩, lost⟩
  exact lost σ fires instance_eq (determined_of_no_products no_products)

end Rule

/-- **When planning preserves results.** A rule and the planned rule, both compiled and evaluated on
facts of the right arities, return the same tuples exactly when the same tuples are lost to
undetermined products in the two orders of the body; so they do when the body has no product. -/
theorem JoinPlanner.evaluate_plan_eq_iff (planner : JoinPlanner) {r : Rule} {c c' : CompiledRule}
    (compiled : r.compile = .ok c) (compiled' : (planner.plan r).compile = .ok c') {facts : Facts}
    (arities : facts.HasArities) (ctx ctx' : Context) (engine engine' : Engine) :
    ∃ out out', (c.evaluate ctx facts engine).1 = .ok out ∧
      (c'.evaluate ctx' facts engine').1 = .ok out' ∧
      (out = out' ↔ ∀ t, r.LostIn facts.model r.body t ↔
        r.LostIn facts.model (planner.plan r).body t) ∧
      ((∀ l ∈ r.body, l.builtin? ≠ some .multiply) → out = out') := by
  obtain ⟨head, perm⟩ := planner.plan_perm r
  obtain ⟨out, e, evaluated, members⟩ := CompiledRule.evaluate_ok compiled ctx arities engine
  obtain ⟨out', e', evaluated', members'⟩ := CompiledRule.evaluate_ok compiled' ctx' arities engine'
  have written (t : Tuple) := (members t).trans (Rule.derives_iff_not_lostIn rfl (.refl _))
  have planned (t : Tuple) := (members' t).trans (Rule.derives_iff_not_lostIn head perm)
  have same : out = out' ↔ ∀ t, r.LostIn facts.model r.body t ↔
      r.LostIn facts.model (planner.plan r).body t := by
    constructor
    · rintro rfl t
      have both := (written t).symm.trans (planned t)
      constructor
      · intro lost
        by_contra kept
        exact (both.2 ⟨lost.1, kept⟩).2 lost
      · intro lost
        by_contra kept
        exact (both.1 ⟨lost.1, kept⟩).2 lost
    · intro lost
      refine SortedSet.ext_mem fun t => ?_
      rw [written, planned, lost t]
  refine ⟨out, out', congrArg Prod.fst evaluated, congrArg Prod.fst evaluated', same, ?_⟩
  intro no_products
  refine same.2 fun t => iff_of_false (Rule.not_lostIn_of_no_products no_products) ?_
  exact Rule.not_lostIn_of_no_products fun l hl => no_products l (perm.mem_iff.1 hl)

/-- A check that a product is zero, written where both factors are bound. -/
def zeroProduct : Rule :=
  ⟨.ofVars "p" ["X", "Y"], [.pos (.ofVars "q" ["X"]), .pos (.ofVars "r" ["Y"]),
    .pos (.new "MULTIPLY" [.var "X", .var "Y", .int 0])]⟩

/-- One factor is zero and the other is not. -/
def factors : Facts := Facts.ofList
  [(⟨"q", 1⟩, SortedSet.ofList [.ofInts [0]]), (⟨"r", 1⟩, SortedSet.ofList [.ofInts [5]])]

/-- Planned, the check finds the other factor instead, and loses the tuple that passes it. -/
theorem plan_loses_zeroProduct :
    factors.HasArities ∧ ∃ c c' : CompiledRule,
      zeroProduct.compile = .ok c ∧ (JoinPlanner.plan {} zeroProduct).compile = .ok c' ∧
      (∃ out out', (c.evaluate {} factors {}).1 = .ok out ∧ (c'.evaluate {} factors {}).1 = .ok out' ∧
        out.toList = [Tuple.ofInts [0, 5]] ∧ out'.toList = []) ∧
      ¬∀ t, zeroProduct.LostIn factors.model zeroProduct.body t ↔
        zeroProduct.LostIn factors.model (JoinPlanner.plan {} zeroProduct).body t := by
  have arities : factors.HasArities := Facts.hasArities_ofList (by decide)
  have written : zeroProduct.compile.toOption.map (fun c =>
      (c.evaluate {} factors {}).1.toOption.map SortedSet.toList) =
      some (some [Tuple.ofInts [0, 5]]) := by decide +kernel
  have planned : (JoinPlanner.plan {} zeroProduct).compile.toOption.map (fun c =>
      (c.evaluate {} factors {}).1.toOption.map SortedSet.toList) = some (some []) := by decide +kernel
  cases compiled : zeroProduct.compile with
  | error e =>
    rw [compiled] at written
    cases written
  | ok c =>
    cases compiled' : (JoinPlanner.plan {} zeroProduct).compile with
    | error e =>
      rw [compiled'] at planned
      cases planned
    | ok c' =>
      obtain ⟨out, out', answer, answer', same, -⟩ :=
        JoinPlanner.evaluate_plan_eq_iff {} compiled compiled' arities {} {} {} {}
      rw [compiled] at written
      rw [compiled'] at planned
      simp only [Except.toOption, Option.map_some, answer, answer', Option.some.injEq] at written planned
      refine ⟨arities, c, c', rfl, rfl, ⟨out, out', answer, answer', written, planned⟩, ?_⟩
      intro lost
      rw [same.2 lost, planned] at written
      cases written

end Datalog
