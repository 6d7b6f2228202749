import Datalog.Proofs.CallByCall
import Datalog.Proofs.DirectorySteps
import Datalog.Proofs.PerfectModel

/-!
# Cached counts are the sizes of the stored relations

An evaluation starts from a snapshot of how many tuples each predicate has and then only adds, stratum
by stratum, the sizes of what is reported as derived. Stores of either kind answer an insertion with
exactly the tuples that were new (`FactStore.Faithful`), so the report of a run that does not fail lists
every new tuple once, under its predicate, whatever was stored before and however many rules share a
head (`Strategy.accounted_of_evaluate`). So the counts stay the sizes of the stored relations
(`Reasoner.counts_exact`).
-/

namespace Datalog

/-- An insertion that is answered is answered with the tuples that were new, and they are stored. -/
def FactStore.Faithful (τ : Type) [FactStore τ] : Prop :=
  ∀ (s s' : τ) p r added, FactStore.insert s p r = (.ok added, s') →
    added = r.diff ((facts s).scan p) ∧ facts s' = (facts s).add p r

/-- Stores in memory and in a directory alike. -/
theorem Store.faithful : FactStore.Faithful Store := by
  intro s s' p r added inserted
  cases s with
  | memory f =>
    cases inserted
    exact ⟨rfl, rfl⟩
  | directory d =>
    rcases answered : Directory.insert p r d with ⟨result, d'⟩
    have told : Store.runDirectory (Directory.insert p r) d = (result, .directory d') := by
      rw [Store.runDirectory, answered]
    cases told.symm.trans inserted
    obtain ⟨same, files, rfl⟩ := Directory.insert_ok answered
    exact ⟨same, rfl⟩

/-- Keeping results changes no facts. -/
theorem Store.facts_recordResult (s : Store) (name : String) (ctx : Context) (r : Relation) :
    (s.recordResult name ctx r).2.facts = s.facts := by
  cases s with
  | memory f => rfl
  | directory d =>
    show ((Directory.writeInference name ctx.flowId r >>= fun path => pure (some path) :
      DirectoryM (Option Path)) d).2.facts = d.facts
    rw [bind_apply, Directory.writeInference_eq]
    rcases Disk.writeStaged d.layout.stagingDir (d.layout.stagedInference name ctx.flowId)
      (d.layout.inferenceFile name ctx.flowId) (FactFile.write r) d.files with ⟨_ | _, files⟩ <;> rfl

section Runs

variable {σ τ : Type} [FactStore τ] {rules : List (EvaluableRule σ)} {limits : Limits}

/-- A call that does not fail stores what the rule returned, and reports what of it was new. -/
theorem Run.perform_ok (faithful : FactStore.Faithful τ) {run : Run σ τ} {rule : EvaluableRule σ}
    {c : Call} (ok : (run.perform rule c).1.failure = none) :
    ∃ out, (run.perform rule c).1.facts = run.facts.add rule.head out ∧
      (run.perform rule c).1.report = (run.report.countEvaluation c.rule).absorb rule.head
        (out.diff (run.facts.scan rule.head)) := by
  unfold perform at ok ⊢
  rcases answer : rule.call c.context c.deltas run.facts run.env with ⟨e | out, env⟩
  · simp only [answer] at ok
    cases ok
  · simp only [answer] at ok ⊢
    rcases inserted : FactStore.insert run.store rule.head out with ⟨e | added, store⟩
    · simp only [inserted] at ok
      cases ok
    · obtain ⟨rfl, grown⟩ := faithful _ _ _ _ _ inserted
      exact ⟨out, grown, rfl⟩

/-- **The report of a run that does not fail accounts for all that is new**, of either strategy and
whatever the rules return. -/
theorem Strategy.accounted_of_evaluate (faithful : FactStore.Faithful τ) {strategy : Strategy}
    {fuel stratum : Nat} {store : τ} {env : σ} {run : Run σ τ}
    (h : strategy.evaluate fuel limits stratum rules store env = some run)
    (ok : run.failure = none) : run.Accounted rules (FactStore.facts store) := by
  refine Strategy.evaluate_keeps
    (P := fun run => run.failure = none → run.Accounted rules (FactStore.facts store))
    (fun _ => .start rules stratum rules.length store env) ?_ ?_ h ok
  · intro run rule c before member accounted after
    obtain ⟨out, grown, report⟩ := Run.perform_ok faithful after
    exact (accounted before).absorb (List.mem_of_getElem? member) grown report
  · intro run accounted before
    have kept := accounted before
    exact ⟨kept.contains, kept.derived, kept.newFacts⟩

/-- What is reported as derived makes up for the difference in size. -/
theorem Run.Accounted.size_scan {run : Run σ τ} {init : Facts} (accounted : run.Accounted rules init)
    (p : Predicate) :
    (run.facts.scan p).size = (init.scan p).size + (run.report.derived.scan p).size := by
  have together : (init.scan p).union (run.facts.scan p) = run.facts.scan p :=
    SortedSet.ext_mem fun t => by
      have kept : t ∈ init.scan p → t ∈ run.facts.scan p := fun old => accounted.contains p old
      rw [SortedSet.mem_union]
      tauto
  rw [accounted.derived, Facts.scan_since, ← SortedSet.size_union_diff, together]

end Runs

/-! ### Counts -/

namespace Counts

@[simp] theorem of_add_self (c : Counts) (p : Predicate) (n : Nat) : (c.add p n).of p = c.of p + n := by
  simp [of, add, SortedMap.getD]

theorem of_add_of_ne (c : Counts) {p q : Predicate} (n : Nat) (h : q ≠ p) : (c.add p n).of q = c.of q := by
  rw [of, add, SortedMap.getD, SortedMap.get?_insert_of_ne h]
  rfl

end Counts

namespace Reasoner

variable {r r' : Reasoner}

/-- The counts are the sizes of the stored relations. -/
def Counted (r : Reasoner) : Prop := ∀ p, r.counts.of p = (r.relation p).size

/-- An evaluation starts from counts that are right. -/
theorem counted_storedCounts (r : Reasoner) : Counted { r with counts := r.storedCounts } := by
  intro p
  show (r.facts.map fun _ rel => rel.size).getD p 0 = (r.facts.getD p ∅).size
  rw [SortedMap.getD, SortedMap.get?_map, SortedMap.getD]
  cases r.facts.get? p <;> rfl

/-- Recording what was derived changes no facts, and adds to the count of a predicate the size of what
is listed for it. -/
theorem recordDerived_ok {context : Predicate → Context} {derived : List (Predicate × Relation)}
    (distinct : (derived.map Prod.fst).Nodup)
    (h : r.recordDerived context derived = (.ok (), r')) :
    r'.facts = r.facts ∧
      ∀ q, r'.counts.of q = r.counts.of q + ((SortedMap.getList? q derived).getD ∅).size := by
  induction derived generalizing r with
  | nil =>
    cases h
    exact ⟨rfl, fun q => rfl⟩
  | cons e rest ih =>
    obtain ⟨p, tuples⟩ := e
    rw [List.map_cons, List.nodup_cons] at distinct
    have same := Store.facts_recordResult r.store p.symbol (context p) tuples
    rw [recordDerived] at h
    rcases recorded : r.store.recordResult p.symbol (context p) tuples with ⟨e | u, store⟩
    · rw [recorded] at h
      cases h
    · rw [recorded] at h same
      obtain ⟨facts, counts⟩ := ih distinct.2 h
      refine ⟨facts.trans same, fun q => ?_⟩
      rw [counts q, SortedMap.getList?]
      by_cases own : q = p
      · subst own
        have unlisted : SortedMap.getList? q rest = none := by
          rw [Option.eq_none_iff_forall_ne_some]
          intro other found
          exact distinct.1 (List.mem_map.2 ⟨_, SortedMap.getList?_eq_some_mem found, rfl⟩)
        rw [unlisted, Counts.of_add_self, if_pos Std.ReflOrd.compare_self]
        rfl
      · rw [Counts.of_add_of_ne _ _ own, if_neg fun same => own (Std.LawfulEqOrd.eq_of_compare same)]

/-- A stratum that is evaluated keeps the counts right. -/
theorem Counted.evaluateStratum (counted : r.Counted) {fuel k : Nat} {rules : Program}
    {report : Report} (h : r.evaluateStratum fuel k rules = some (.ok report, r')) : r'.Counted := by
  obtain ⟨compiled, run, -, evaluated, ok, rfl, recorded⟩ := evaluateStratum_ok h
  have accounted := Strategy.accounted_of_evaluate Store.faithful evaluated ok
  obtain ⟨facts, counts⟩ := recordDerived_ok run.report.derived.nodup_keys recorded
  intro p
  have grown : (r'.relation p).size = (r.relation p).size + (run.report.derived.scan p).size := by
    rw [relation, facts]
    exact accounted.size_scan p
  rw [counts p, grown, ← counted p]
  rfl

/-- Strata that are evaluated keep the counts right. -/
theorem Counted.evaluateStrata (counted : r.Counted) {fuel : Nat} {strata : List (Program × Nat)}
    {reports : List Report} (h : Reasoner.evaluateStrata fuel strata r = some (.ok reports, r')) :
    r'.Counted := by
  induction strata generalizing r reports with
  | nil =>
    cases h
    exact counted
  | cons stratum strata ih =>
    obtain ⟨rules, k⟩ := stratum
    by_cases empty : rules = []
    · subst empty
      exact ih counted h
    · obtain ⟨report, r₁, reports', first, rest, -⟩ := evaluateStrata_cons empty h
      exact ih (counted.evaluateStratum first) rest

/-- **Cached counts never drift.** After a program was evaluated, by either strategy, within any limits
and over a store of either kind, the cached count of every predicate is the number of tuples that the
store has for it, whatever was imported or evaluated before. -/
theorem counts_exact {p : Program} {fuel : Nat} {report : ProgramReport}
    (h : r.evaluate fuel p = some (.ok report, r')) (q : Predicate) :
    r'.counts.of q = (r'.relation q).size := by
  rcases evaluate_cases h with ⟨-, e, refused, -⟩ | ⟨strat, reports, -, -, evaluated, answered⟩
  · cases refused
  · cases reports with
    | error e => cases answered
    | ok reports => exact (counted_storedCounts r).evaluateStrata evaluated q

/-- Two roads more, and two towns that are known to be reached already. -/
def longRoads : Facts :=
  (roads.add ⟨"road", 2⟩ (SortedSet.ofList [.ofInts [7, 8], .ofInts [8, 2]])).add ⟨"reach", 1⟩
    (SortedSet.ofList [.ofInts [2], .ofInts [7]])

/-- Both rules for `reach` derive what is stored already and what the other derives. Each town counts
once, and what was known counts too. -/
theorem longRoads_counted :
    ∃ report r', ({ townReasoner with store := .memory longRoads } : Reasoner).evaluate 9 strandedRules =
        some (.ok report, r') ∧
      (r'.relation ⟨"reach", 1⟩).toList = [Tuple.ofInts [1], Tuple.ofInts [2], Tuple.ofInts [3],
        Tuple.ofInts [7], Tuple.ofInts [8]] ∧
      r'.counts.of ⟨"reach", 1⟩ = 5 := by
  have evaluated :
      ((({ townReasoner with store := .memory longRoads } : Reasoner).evaluate 9 strandedRules).map
        fun answer => (answer.1.isOk, (answer.2.relation ⟨"reach", 1⟩).toList)) =
      some (true, [Tuple.ofInts [1], Tuple.ofInts [2], Tuple.ofInts [3], Tuple.ofInts [7],
        Tuple.ofInts [8]]) := by decide +kernel
  obtain ⟨⟨result, r'⟩, h, answered⟩ := Option.map_eq_some_iff.1 evaluated
  obtain ⟨ok, listed⟩ := Prod.mk.inj answered
  cases result with
  | error e => cases ok
  | ok report =>
    refine ⟨report, r', h, listed, ?_⟩
    rw [counts_exact h, SortedSet.size]
    exact congrArg List.length listed

end Reasoner

end Datalog
