import Mathlib.Algebra.BigOperators.Group.Finset.Piecewise
import Datalog.Evaluation.Run
import Datalog.Proofs.Meaning

/-!
# What runs keep

A run adds to a store what rules return, one call at a time. Whatever is called in whatever order, the
store grows, stays of its kind and stays within every interpretation that has what the rules return; the
report accounts exactly for what is new, and if the run failed, a rule fails on its facts
(`Run.Growth`). Of a rule, three things matter: what it returns against all facts is always the same and
depends on the predicates it reads only, and an answer for new tuples completes what it returned before
they came (`EvaluableRule.Incremental`). That it answers at all is not asked.
-/

namespace Datalog

/-- No tuple is listed twice. -/
theorem SortedSet.nodup_toList (r : Relation) : r.toList.Nodup := by
  refine r.sorted.imp fun lt same => ?_
  rw [same, Std.ReflOrd.compare_self] at lt
  cases lt

/-- Adding tuples that a relation lacks adds their number. -/
theorem SortedSet.size_union_diff (s t : Relation) :
    (s.union t).size = s.size + (t.diff s).size := by
  have apart : (s.toList ++ (t.diff s).toList).Nodup := by
    rw [List.nodup_append]
    refine ⟨nodup_toList s, nodup_toList _, fun a ha b hb same => ?_⟩
    subst same
    exact (SortedSet.mem_diff.1 hb).2 ha
  have perm : (s.union t).toList.Perm (s.toList ++ (t.diff s).toList) := by
    rw [List.perm_ext_iff_of_nodup (nodup_toList _) apart]
    intro a
    rw [List.mem_append]
    show a ∈ s.union t ↔ a ∈ s ∨ a ∈ t.diff s
    rw [SortedSet.mem_union, SortedSet.mem_diff]
    tauto
  rw [size, perm.length_eq, List.length_append]
  rfl

namespace Facts

/-- What facts hold beyond older ones, for the predicates that have any such tuple. -/
def since (f init : Facts) : Facts :=
  (f.map fun p r => r.diff (init.scan p)).filter fun _ r => !r.isEmpty

/-- The new tuples of a predicate are listed when there are any. -/
theorem get?_since (f init : Facts) (p : Predicate) :
    (f.since init).get? p = if ((f.scan p).diff (init.scan p)).isEmpty then none
      else some ((f.scan p).diff (init.scan p)) := by
  have nothing : ((∅ : Relation).diff (init.scan p)).isEmpty = true :=
    SortedSet.isEmpty_iff.2 fun t ht => SortedSet.not_mem_empty (SortedSet.mem_diff.1 ht).1
  have scanned : f.scan p = (f.get? p).getD ∅ := rfl
  rw [since, SortedMap.get?_filter, SortedMap.get?_map, scanned]
  cases f.get? p with
  | none => simp [nothing]
  | some r => cases h : (r.diff (init.scan p)).isEmpty <;> simp [h]

theorem scan_since (f init : Facts) (p : Predicate) :
    (f.since init).scan p = (f.scan p).diff (init.scan p) := by
  rw [scan, SortedMap.getD, get?_since]
  split
  · next empty =>
    refine SortedSet.ext_mem fun t => ?_
    exact iff_of_false SortedSet.not_mem_empty (SortedSet.isEmpty_iff.1 empty t)
  · rfl

/-- A tuple that is new to the facts was not among the older ones either. -/
theorem diff_scan_add {f init : Facts} (grown : init.model ≤ f.model) (p : Predicate) (r : Relation) :
    ((f.add p r).scan p).diff (init.scan p) =
      ((f.scan p).diff (init.scan p)).union (r.diff (f.scan p)) := by
  refine SortedSet.ext_mem fun t => ?_
  have old : t ∈ init.scan p → t ∈ f.scan p := fun ht => grown p ht
  simp only [scan_add_self, SortedSet.mem_diff, SortedSet.mem_union]
  by_cases ht : t ∈ f.scan p <;> tauto

/-- New tuples add to what is new. -/
theorem since_add {f init : Facts} (grown : init.model ≤ f.model) (p : Predicate) (r : Relation) :
    (f.add p r).since init =
      if (r.diff (f.scan p)).isEmpty then f.since init
      else (f.since init).add p (r.diff (f.scan p)) := by
  have new := diff_scan_add grown p r
  refine SortedMap.ext_get? fun q => ?_
  by_cases same : q = p
  · subst same
    rw [get?_since, new]
    cases empty : (r.diff (f.scan q)).isEmpty with
    | true =>
      have nothing := SortedSet.isEmpty_iff.1 empty
      have unchanged : ((f.scan q).diff (init.scan q)).union (r.diff (f.scan q)) =
          (f.scan q).diff (init.scan q) := SortedSet.ext_mem fun t => by simp [nothing t]
      rw [unchanged, if_pos rfl, get?_since]
    | false =>
      have filled : (((f.scan q).diff (init.scan q)).union (r.diff (f.scan q))).isEmpty = false := by
        rw [Bool.eq_false_iff] at empty ⊢
        intro nothing
        refine empty (SortedSet.isEmpty_iff.2 fun t ht => ?_)
        exact SortedSet.isEmpty_iff.1 nothing t (SortedSet.mem_union.2 (.inr ht))
      simp only [filled, Bool.false_eq_true, if_false]
      rw [add, SortedMap.get?_insert_self, scan_since]
  · rw [get?_since, scan_add_of_ne f r same, ← get?_since]
    split
    · rfl
    · rw [add, SortedMap.get?_insert_of_ne same]

/-- What is new depends on the tuples only, not on which predicates are listed. -/
theorem since_congr {f g init : Facts} (h : f.model = g.model) : f.since init = g.since init := by
  refine SortedMap.ext_get? fun p => ?_
  rw [get?_since, get?_since, scan_eq_of_model_eq (congrFun h p)]

theorem since_self (f : Facts) : f.since f = ∅ := by
  refine SortedMap.ext_get? fun p => ?_
  have nothing : ((f.scan p).diff (f.scan p)).isEmpty = true := by
    rw [SortedSet.isEmpty_iff]
    intro t ht
    exact (SortedSet.mem_diff.1 ht).2 (SortedSet.mem_diff.1 ht).1
  rw [get?_since, if_pos nothing, SortedMap.get?_empty]

/-- New tuples count for their predicate. -/
theorem size_since_add {f init : Facts} (grown : init.model ≤ f.model) (p q : Predicate)
    (r : Relation) :
    (((f.add p r).since init).scan q).size =
      ((f.since init).scan q).size + if q = p then (r.diff (f.scan p)).size else 0 := by
  rw [scan_since, scan_since]
  by_cases same : q = p
  · subst same
    have apart : (r.diff (f.scan q)).diff ((f.scan q).diff (init.scan q)) = r.diff (f.scan q) := by
      refine SortedSet.ext_mem fun t => ?_
      simp only [SortedSet.mem_diff]
      tauto
    rw [diff_scan_add grown, SortedSet.size_union_diff, apart, if_pos rfl]
  · rw [scan_add_of_ne f r same, if_neg same, Nat.add_zero]

end Facts

/-! ### Rules and stores -/

/-- A kind of stores that take any tuples. -/
def FactStore.Reliable {τ : Type} [FactStore τ] (Kind : τ → Prop) : Prop :=
  ∀ s p r, Kind s → ∃ s', FactStore.insert s p r = (.ok (r.diff ((facts s).scan p)), s') ∧
    Kind s' ∧ facts s' = (facts s).add p r

theorem Facts.reliable : FactStore.Reliable fun _ : Facts => True :=
  fun f p r _ => ⟨f.add p r, rfl, trivial, rfl⟩

namespace EvaluableRule

variable {σ : Type}

/-- This is what the rule returns against all facts, whatever it is called for. -/
def Answers (rule : EvaluableRule σ) (f : Facts) (out : Relation) : Prop :=
  ∀ ctx env, ∃ env', rule.call ctx none f env = (.ok out, env')

/-- A call of the rule on the facts may end so, be it against all of them or for some as new tuples. -/
def MayGive (rule : EvaluableRule σ) (f : Facts) (result : Except EngineError Relation) : Prop :=
  ∃ ctx deltas env env', (∀ new ∈ deltas, new.model ≤ f.model) ∧ rule.call ctx deltas f env = (result, env')

/-- The interpretation has what the rule returns on the good facts within it. -/
def ClosedIn (Good : Facts → Prop) (rule : EvaluableRule σ) (M : Interpretation) : Prop :=
  ∀ f, Good f → f.model ≤ M → ∀ out, rule.MayGive f (.ok out) → ∀ t ∈ out, t ∈ M rule.head

/-- A rule that can be called again for new tuples only, on facts that are `Good`. -/
structure Incremental (Good : Facts → Prop) (rule : EvaluableRule σ) : Prop where
  /-- What it answers once against all facts, it always answers. -/
  same : ∀ f, Good f → ∀ ctx env out env', rule.call ctx none f env = (.ok out, env') →
    rule.Answers f out
  /-- Facts with anything more of its head are good. -/
  keeps : ∀ f, Good f → ∀ out, Good (f.add rule.head out)
  /-- Only the predicates that it reads matter. -/
  local_reads : ∀ f g, Good f → Good g → (∀ p ∈ rule.reads, f.model p = g.model p) →
    ∀ out, rule.Answers f out → rule.Answers g out
  /-- An answer on older facts and one for the tuples that these lack are the answer against all
  facts. -/
  complete_new : ∀ old f new, Good old → Good f → old.model ≤ f.model → new.model ≤ f.model →
    (∀ p ∈ rule.reads, f.model p ⊆ old.model p ∪ new.model p) → ∀ before, rule.Answers old before →
    ∀ ctx env out env', rule.call ctx (some new) f env = (.ok out, env') →
    ∃ all, rule.Answers f all ∧ ∀ t ∈ all, t ∈ before ∨ t ∈ out

end EvaluableRule

/-! ### Calls -/

namespace Run

variable {σ τ : Type} [FactStore τ] {Kind : τ → Prop} {Good : Facts → Prop}
  {rules : List (EvaluableRule σ)} {init : Facts} {run : Run σ τ}

/-- The facts of the store of a run. -/
abbrev facts (run : Run σ τ) : Facts := FactStore.facts run.store

/-- What holds of a run at any time, of whatever calls it was made. -/
structure Growth (Kind : τ → Prop) (Good : Facts → Prop) (rules : List (EvaluableRule σ))
    (init : Facts) (run : Run σ τ) : Prop where
  kind : Kind run.store
  good : Good run.facts
  contains : init.model ≤ run.facts.model
  within : ∀ M, init.model ≤ M → (∀ rule ∈ rules, rule.ClosedIn Good M) → run.facts.model ≤ M
  derived : run.report.derived = run.facts.since init
  newFacts : run.report.newFacts =
    ∑ p ∈ (rules.map EvaluableRule.head).toFinset, ((run.facts.since init).scan p).size
  failed : ∀ e, run.failure = some e → ∃ rule ∈ rules, rule.MayGive run.facts (.error e)

/-- The report accounts for what the facts hold beyond the first ones. -/
structure Accounted (rules : List (EvaluableRule σ)) (init : Facts) (run : Run σ τ) : Prop where
  contains : init.model ≤ run.facts.model
  derived : run.report.derived = run.facts.since init
  newFacts : run.report.newFacts =
    ∑ p ∈ (rules.map EvaluableRule.head).toFinset, ((run.facts.since init).scan p).size

/-- An answer that is put into the store, with what was new put into the report, stays accounted for. -/
theorem Accounted.absorb (accounted : Accounted rules init run) {rule : EvaluableRule σ}
    (member : rule ∈ rules) {out : Relation} {run' : Run σ τ} {i : Nat}
    (grown : run'.facts = run.facts.add rule.head out)
    (report : run'.report = (run.report.countEvaluation i).absorb rule.head
      (out.diff (run.facts.scan rule.head))) : Accounted rules init run' where
  contains := by
    rw [grown]
    have more : run.facts.model ≤ (run.facts.add rule.head out).model := Facts.model_le_add _ _ _
    exact accounted.contains.trans more
  derived := by
    rw [grown, Facts.since_add accounted.contains, report, Report.absorb, ← accounted.derived]
    rfl
  newFacts := by
    have listed : rule.head ∈ (rules.map EvaluableRule.head).toFinset :=
      List.mem_toFinset.2 (List.mem_map_of_mem member)
    rw [report]
    show run.report.newFacts + (out.diff (run.facts.scan rule.head)).size = _
    simp only [grown, Facts.size_since_add accounted.contains, Finset.sum_add_distrib,
      Finset.sum_ite_eq', if_pos listed, accounted.newFacts]

/-- A run that has not started has nothing to account for. -/
theorem Accounted.start (rules : List (EvaluableRule σ)) (stratum n : Nat) (store : τ) (env : σ) :
    Accounted rules (FactStore.facts store) (Run.start stratum n store env) where
  contains := le_rfl
  derived := (Facts.since_self _).symm
  newFacts := by
    show 0 = ∑ p ∈ _, (((FactStore.facts store).since (FactStore.facts store)).scan p).size
    rw [Facts.since_self]
    simp only [Facts.scan_empty]
    exact Finset.sum_const_zero.symm

/-- A call that is answered puts the answer into the store, and what was new into the report. -/
theorem perform_of_answer (reliable : FactStore.Reliable Kind) (kind : Kind run.store)
    {rule : EvaluableRule σ} {c : Call} {out : Relation} {env : σ}
    (answer : rule.call c.context c.deltas run.facts run.env = (.ok out, env)) :
    ∃ store, Kind store ∧ FactStore.facts store = run.facts.add rule.head out ∧
      run.perform rule c = ({ run with
        store, env, calls := run.calls ++ [c],
        report := (run.report.countEvaluation c.rule).absorb rule.head
          (out.diff (run.facts.scan rule.head)) }, out.diff (run.facts.scan rule.head)) := by
  obtain ⟨store, inserted, kind', grown⟩ := reliable run.store rule.head out kind
  refine ⟨store, kind', grown, ?_⟩
  unfold perform
  simp only [answer, inserted]

/-- A call that fails leaves the store as it is. -/
theorem perform_of_error {rule : EvaluableRule σ} {c : Call} {e : EngineError} {env : σ}
    (failed : rule.call c.context c.deltas run.facts run.env = (.error e, env)) :
    run.perform rule c = ({ run with env, calls := run.calls ++ [c], failure := some e }, ∅) := by
  unfold perform
  simp only [failed]

/-- **What a call keeps,** whether it is answered or not. -/
theorem Growth.perform (reliable : FactStore.Reliable Kind) (g : Growth Kind Good rules init run)
    (ok : run.failure = none) {rule : EvaluableRule σ} (member : rule ∈ rules)
    (incremental : rule.Incremental Good) {c : Call}
    (stored : ∀ new ∈ c.deltas, new.model ≤ run.facts.model) :
    Growth Kind Good rules init (run.perform rule c).1 := by
  cases answer : rule.call c.context c.deltas run.facts run.env with
  | mk result env =>
    have gives : rule.MayGive run.facts result := ⟨_, _, _, _, stored, answer⟩
    cases result with
    | error e =>
      rw [perform_of_error answer]
      refine ⟨g.kind, g.good, g.contains, g.within, g.derived, g.newFacts, fun e' same => ?_⟩
      cases same
      exact ⟨rule, member, gives⟩
    | ok out =>
      obtain ⟨store, kind, grown, performed⟩ := perform_of_answer reliable g.kind answer
      have accounted : Accounted rules init (run.perform rule c).1 :=
        Accounted.absorb ⟨g.contains, g.derived, g.newFacts⟩ member (by rw [performed]; exact grown)
          (by rw [performed])
      rw [performed] at accounted ⊢
      refine ⟨kind, ?_, accounted.contains, fun M contains closed => ?_, accounted.derived,
        accounted.newFacts, fun e' failed => ?_⟩
      · show Good (FactStore.facts store)
        rw [grown]
        exact incremental.keeps _ g.good out
      · show (FactStore.facts store).model ≤ M
        rw [grown]
        have below := g.within M contains closed
        exact Facts.model_add_le below (closed rule member run.facts g.good below out gives)
      · rw [ok] at failed
        cases failed

theorem Growth.start {store : τ} (kind : Kind store) (good : Good (FactStore.facts store))
    (stratum n : Nat) (env : σ) :
    Growth Kind Good rules (FactStore.facts store) (Run.start stratum n store env) where
  kind := kind
  good := good
  contains := le_rfl
  within _ contains _ := contains
  derived := (Accounted.start rules stratum n store env).derived
  newFacts := (Accounted.start rules stratum n store env).newFacts
  failed _ failed := by cases failed

theorem Growth.countIteration (g : Growth Kind Good rules init run) :
    Growth Kind Good rules init { run with report := run.report.countIteration } :=
  ⟨g.kind, g.good, g.contains, g.within, g.derived, g.newFacts, g.failed⟩

/-- The rule answers against all facts, and these have all that it answers. -/
def Saturated (run : Run σ τ) (rule : EvaluableRule σ) : Prop :=
  ∃ out, rule.Answers run.facts out ∧ ∀ t ∈ out, t ∈ run.facts.scan rule.head

end Run

end Datalog
