import Datalog.Proofs.CompiledRules

/-!
# Evaluation for new tuples is exact

When facts grow, what a rule derives from them is what it derived before, or is derived with a new
tuple at some join (`Rule.derives_iff_old_or_new`). An evaluation for new tuples reads them at one join
after the other, and all the facts, old and new, everywhere else. So it brings exactly what is missing,
whatever joins and predicates the new tuples are for and whether they were stored before or not
(`CompiledRule.evaluate_grown`).
-/

namespace Datalog

/-- **Old or new.** From grown facts a rule derives what it derives from the old ones, and what it
derives with a new tuple at some join, as long as what it negates has not grown. -/
theorem Rule.derives_iff_old_or_new {r : Rule} {old new grown : Interpretation} {t : Tuple}
    (joined : ∀ l ∈ r.body, l.isJoinable = true →
      grown l.predicate = old l.predicate ∪ new l.predicate)
    (negated : ∀ l ∈ r.body, l.NegatesStored → grown l.predicate = old l.predicate) :
    r.Derives grown t ↔ r.Derives old t ∨ r.DerivesNew grown new t := by
  constructor
  · intro derives
    exact derives.new_or_old (fun l hl joinable => (joined l hl joinable).subset)
      fun l hl neg => (negated l hl neg).superset
  · rintro (before | is_new)
    · refine before.mono (fun l hl joinable => ?_) fun l hl neg => (negated l hl neg).subset
      rw [joined l hl joinable]
      exact Set.subset_union_left
    · refine is_new.derives fun l hl joinable => ?_
      rw [joined l hl joinable]
      exact Set.subset_union_right

namespace CompiledRule

variable {r : Rule} {c : CompiledRule} {old new grown : Facts}

/-- New tuples have the arities of the facts that they make. -/
theorem hasArities_of_grown (arities : grown.HasArities)
    (united : ∀ p, grown.scan p = (old.scan p).union (new.scan p)) : new.HasArities := by
  intro p t ht
  refine arities p t ?_
  rw [united, SortedSet.mem_union]
  exact .inr ht

/-- **Evaluation for new tuples is exact.** Take a compiled rule, and facts that consist of old ones and
new ones, predicate by predicate; the two may overlap. Let no predicate that the rule negates have new
tuples. Then all three evaluations answer, whatever their contexts and engines are, and what the rule
derives from the facts is what it derives from the old ones together with what it derives for the new
ones. -/
theorem evaluate_grown (h : r.compile = .ok c) (old_arities : old.HasArities)
    (arities : grown.HasArities) (united : ∀ p, grown.scan p = (old.scan p).union (new.scan p))
    (unnegated : ∀ l ∈ r.body, l.NegatesStored → new.scan l.predicate = ∅)
    (ctx old_ctx new_ctx : Context) (engine old_engine new_engine : Engine) :
    ∃ all before more engine' old_engine' new_engine',
      c.evaluate ctx grown engine = (.ok all, engine') ∧
      c.evaluate old_ctx old old_engine = (.ok before, old_engine') ∧
      c.evaluateDelta new_ctx grown new new_engine = (.ok more, new_engine') ∧
      all = before.union more := by
  have new_arities : new.HasArities := hasArities_of_grown arities united
  obtain ⟨all, engine', evaluated, members⟩ := evaluate_ok h ctx arities engine
  obtain ⟨before, old_engine', evaluated_old, members_old⟩ := evaluate_ok h old_ctx old_arities old_engine
  obtain ⟨more, new_engine', evaluated_new, members_new⟩ :=
    evaluateDelta_ok h new_ctx (Rule.acceptsNew_of_right arities new_arities) new_engine
  refine ⟨all, before, more, engine', old_engine', new_engine', evaluated, evaluated_old,
    evaluated_new, SortedSet.ext_mem fun t => ?_⟩
  have model (p : Predicate) : grown.model p = old.model p ∪ new.model p := by
    ext t
    rw [Set.mem_union, Facts.mem_model, Facts.mem_model, Facts.mem_model, united, SortedSet.mem_union]
  have fixed : ∀ l ∈ r.body, l.NegatesStored → grown.model l.predicate = old.model l.predicate := by
    intro l hl neg
    have none_new : new.model l.predicate = ∅ := by
      ext t
      rw [Facts.mem_model, unnegated l hl neg]
      exact iff_of_false SortedSet.not_mem_empty id
    rw [model, none_new, Set.union_empty]
  rw [SortedSet.mem_union, members, members_old, members_new]
  exact Rule.derives_iff_old_or_new (fun l _ _ => model l.predicate) fixed

/-- Two roads in a row through a town that is not closed, with twice the toll of that town. -/
def throughRule : Rule :=
  ⟨.new "through" [.var "X", .var "Z", .var "N"],
    [.pos (.ofVars "road" ["X", "Y"]), .pos (.ofVars "road" ["Y", "Z"]),
      .pos (.ofVars "toll" ["Y", "M"]), .pos (.new "MULTIPLY" [.var "M", .int 2, .var "N"]),
      .neg (.ofVars "closed" ["Y"])]⟩

/-- Two roads in a row through a town with a toll. -/
def oldRoads : Facts := Facts.ofList
  [(⟨"road", 2⟩, SortedSet.ofList [.ofInts [1, 2], .ofInts [2, 3]]),
    (⟨"toll", 2⟩, SortedSet.ofList [.ofInts [2, 5]]), (⟨"closed", 1⟩, SortedSet.ofList [.ofInts [4]])]

/-- Facts with more roads, one of which may have been there, and tolls in more towns. -/
def withRoads (f : Facts) : Facts :=
  (f.add ⟨"road", 2⟩ (SortedSet.ofList [.ofInts [2, 3], .ofInts [3, 1]])).add ⟨"toll", 2⟩
    (SortedSet.ofList [.ofInts [3, 7]])

theorem scan_withRoads (p : Predicate) :
    (withRoads oldRoads).scan p = (oldRoads.scan p).union ((withRoads ∅).scan p) := by
  refine SortedSet.ext_mem fun t => ?_
  simp only [withRoads, Facts.mem_scan_add, SortedSet.mem_union, Facts.scan_empty,
    SortedSet.not_mem_empty, false_or, or_assoc]

/-- One more way: the first of its roads was there, and the second road and the toll are new. The way
that was there comes again for the new tuples, as its second road is among them. -/
theorem evaluate_grown_roads :
    oldRoads.HasArities ∧ (withRoads oldRoads).HasArities ∧
    (∀ l ∈ throughRule.body, l.NegatesStored → (withRoads ∅).scan l.predicate = ∅) ∧
    ∃ c all before more engine' old_engine' new_engine', throughRule.compile = .ok c ∧
      c.evaluate {} (withRoads oldRoads) {} = (.ok all, engine') ∧
      c.evaluate {} oldRoads {} = (.ok before, old_engine') ∧
      c.evaluateDelta {} (withRoads oldRoads) (withRoads ∅) {} = (.ok more, new_engine') ∧
      all = before.union more ∧
      all.toList = [Tuple.ofInts [1, 3, 10], .ofInts [2, 1, 14]] ∧
      before.toList = [Tuple.ofInts [1, 3, 10]] ∧
      more.toList = [Tuple.ofInts [1, 3, 10], .ofInts [2, 1, 14]] := by
  have old_arities : oldRoads.HasArities := Facts.hasArities_ofList (by decide)
  have arities : (withRoads oldRoads).HasArities :=
    (old_arities.add (show ∀ t ∈ (SortedSet.ofList _ : Relation).toList, _ by decide)).add
      (show ∀ t ∈ (SortedSet.ofList _ : Relation).toList, _ by decide)
  have unnegated : ∀ l ∈ throughRule.body, l.NegatesStored →
      (withRoads ∅).scan l.predicate = ∅ := by
    have listed : ∀ l ∈ throughRule.body, l.builtin? = none ∧ l.positive = false →
        ((withRoads ∅).scan l.predicate).isEmpty = true := by decide +kernel
    exact fun l hl neg => SortedSet.ext_mem fun t =>
      iff_of_false (SortedSet.isEmpty_iff.1 (listed l hl neg) t) SortedSet.not_mem_empty
  have answers : throughRule.compile.toOption.map (fun c =>
      ((c.evaluate {} (withRoads oldRoads) {}).1.toOption.map SortedSet.toList,
        (c.evaluate {} oldRoads {}).1.toOption.map SortedSet.toList,
        (c.evaluateDelta {} (withRoads oldRoads) (withRoads ∅) {}).1.toOption.map
          SortedSet.toList)) =
      some (some [Tuple.ofInts [1, 3, 10], .ofInts [2, 1, 14]], some [Tuple.ofInts [1, 3, 10]],
        some [Tuple.ofInts [1, 3, 10], .ofInts [2, 1, 14]]) := by decide +kernel
  cases compiled : throughRule.compile with
  | error e =>
    rw [compiled] at answers
    cases answers
  | ok c =>
    obtain ⟨all, before, more, engine', old_engine', new_engine', evaluated, evaluated_old,
      evaluated_new, united⟩ := evaluate_grown compiled old_arities arities scan_withRoads unnegated
        {} {} {} {} {} {}
    rw [compiled] at answers
    simp only [Except.toOption, Option.map_some, evaluated, evaluated_old, evaluated_new,
      Option.some.injEq, Prod.mk.injEq] at answers
    obtain ⟨all_eq, before_eq, more_eq⟩ := answers
    exact ⟨old_arities, arities, unnegated, c, all, before, more, engine', old_engine', new_engine',
      rfl, evaluated, evaluated_old, evaluated_new, united, all_eq, before_eq, more_eq⟩

end CompiledRule

end Datalog
