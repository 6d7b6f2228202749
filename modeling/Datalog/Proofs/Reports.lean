import Mathlib.Algebra.GroupWithZero.Nat
import Datalog.Proofs.CallCounts

/-!
# Reports account for what happened

Whatever the rules return, the report of a run that did not fail says exactly what the run did to facts
in memory: which tuples are new and how many, how often each rule was called, and in how many rounds or
scheduling steps (`Strategy.report_exact`). The tuples are accounted for call by call (`Run.Explained`).
A naive run consists of whole rounds: before a round all rules have been called equally often, so the
limits allow all of them or none (`Naive.Rounded`).
-/

namespace Datalog

/-- The tuples of facts, counted predicate by predicate. -/
theorem Facts.sum_size_values {f : Facts} {s : Finset Predicate} (listed : ∀ p ∈ f.keys, p ∈ s) :
    (f.values.map SortedSet.size).sum = ∑ p ∈ s, (f.scan p).size := by
  have by_key : f.values.map SortedSet.size = f.keys.map fun p => (f.scan p).size := by
    rw [SortedMap.values, SortedMap.keys, List.map_map, List.map_map]
    exact List.map_congr_left fun e he => by
      rw [Function.comp_apply, Function.comp_apply, Facts.scan_of_mem_toList he]
  have unlisted : ∀ p ∈ s, p ∉ f.keys.toFinset → (f.scan p).size = 0 := by
    intro p _ absent
    rw [List.mem_toFinset, SortedMap.mem_keys_iff, not_not] at absent
    rw [scan, SortedMap.getD, absent]
    rfl
  rw [by_key, ← List.sum_toFinset _ f.nodup_keys]
  exact Finset.sum_subset (fun p hp => listed p (List.mem_toFinset.1 hp)) unlisted

variable {σ : Type} {rules : List (EvaluableRule σ)} {limits : Limits} {init : Facts}
  {fuel stratum : Nat}

/-! ### Tuples -/

namespace Run

variable {run : Run σ Facts}

/-- Facts in memory take all that a rule returns, so a call fails only where the rule does. -/
theorem perform_memory (run : Run σ Facts) (rule : EvaluableRule σ) (c : Call) :
    (∃ e env, rule.call c.context c.deltas run.facts run.env = (.error e, env) ∧
      run.perform rule c =
        ({ run with env, calls := run.calls ++ [c], failure := some e }, ∅)) ∨
    ∃ out env, rule.call c.context c.deltas run.facts run.env = (.ok out, env) ∧
      run.perform rule c = ({ run with
        store := run.facts.add rule.head out, env, calls := run.calls ++ [c],
        report := (run.report.countEvaluation c.rule).absorb rule.head
          (out.diff (run.facts.scan rule.head)) }, out.diff (run.facts.scan rule.head)) := by
  rcases answer : rule.call c.context c.deltas run.facts run.env with ⟨e | out, env⟩
  · refine .inl ⟨e, env, rfl, ?_⟩
    unfold perform
    simp only [answer]
  · obtain ⟨store, -, grown, performed⟩ := perform_of_answer Facts.reliable trivial answer
    cases grown
    exact .inr ⟨out, env, rfl, performed⟩

/-- The report accounts for all that is new, and only heads of rules have anything new. -/
structure Explained (rules : List (EvaluableRule σ)) (init : Facts) (run : Run σ Facts) : Prop
    extends Accounted rules init run where
  elsewhere : ∀ p, (∀ rule ∈ rules, rule.head ≠ p) → run.facts.scan p = init.scan p

theorem Explained.start (rules : List (EvaluableRule σ)) (stratum : Nat) (init : Facts) (env : σ) :
    Explained rules init (.start stratum rules.length init env) :=
  ⟨.start rules stratum rules.length init env, fun _ _ => rfl⟩

/-- A call stays explained, whatever it returns. -/
theorem Explained.perform (explained : run.Explained rules init) {rule : EvaluableRule σ}
    (member : rule ∈ rules) (c : Call) : (run.perform rule c).1.Explained rules init := by
  rcases perform_memory run rule c with ⟨e, env, -, performed⟩ | ⟨out, env, -, performed⟩
  · rw [performed]
    exact ⟨⟨explained.contains, explained.derived, explained.newFacts⟩, explained.elsewhere⟩
  · refine ⟨explained.toAccounted.absorb member (by rw [performed]; rfl) (by rw [performed]), ?_⟩
    intro p no_head
    rw [performed]
    show (run.facts.add rule.head out).scan p = init.scan p
    rw [Facts.scan_add_of_ne _ _ (no_head rule member).symm, explained.elsewhere p no_head]

theorem Explained.countIteration (explained : run.Explained rules init) :
    Explained rules init { run with report := run.report.countIteration } :=
  ⟨⟨explained.contains, explained.derived, explained.newFacts⟩, explained.elsewhere⟩

/-- The facts are the first ones and, apart from them, what the report lists. -/
theorem Explained.union (explained : run.Explained rules init) (p : Predicate) :
    (∀ t ∈ init.scan p, t ∉ run.report.derived.scan p) ∧
      run.facts.scan p = (init.scan p).union (run.report.derived.scan p) := by
  rw [explained.derived, Facts.scan_since]
  refine ⟨fun t old new => (SortedSet.mem_diff.1 new).2 old, SortedSet.ext_mem fun t => ?_⟩
  have kept : t ∈ init.scan p → t ∈ run.facts.scan p := fun old => explained.contains p old
  rw [SortedSet.mem_union, SortedSet.mem_diff]
  tauto

/-- The report lists a predicate only if it is the head of a rule and got new tuples. -/
theorem Explained.listed (explained : run.Explained rules init) {p : Predicate} {r : Relation}
    (found : run.report.derived.get? p = some r) :
    r.isEmpty = false ∧ ∃ rule ∈ rules, rule.head = p := by
  rw [explained.derived, Facts.get?_since] at found
  split at found
  · cases found
  · next filled =>
    cases found
    rw [Bool.not_eq_true] at filled
    refine ⟨filled, ?_⟩
    by_contra no_head
    push Not at no_head
    obtain ⟨t, ht⟩ := SortedSet.isEmpty_eq_false_iff.1 filled
    rw [explained.elsewhere p no_head, SortedSet.mem_diff] at ht
    exact ht.2 ht.1

/-- The report counts the tuples that it lists. -/
theorem Explained.total (explained : run.Explained rules init) :
    run.report.newFacts = (run.report.derived.values.map SortedSet.size).sum := by
  rw [explained.newFacts, ← explained.derived]
  refine (Facts.sum_size_values fun p hp => ?_).symm
  obtain ⟨r, found⟩ := Option.ne_none_iff_exists'.1 (SortedMap.mem_keys_iff.1 hp)
  obtain ⟨-, rule, member, rfl⟩ := explained.listed found
  exact List.mem_toFinset.2 (List.mem_map_of_mem member)

end Run

/-! ### Calls -/

/-- The report of a run that did not fail lists the number of calls of every rule. -/
theorem Run.Tallied.evaluations {τ : Type} {run : Run σ τ} {n : Nat} (tallied : run.Tallied n)
    (ok : run.failure = none) : run.report.evaluations = (List.range n).map run.callsOf := by
  refine List.ext_getElem (by rw [tallied.size, List.length_map, List.length_range]) fun i inside _ => ?_
  rw [List.getElem_map, List.getElem_range, ← tallied.counted ok i, Report.evaluationsOf,
    List.getElem?_eq_getElem inside, Option.getD_some]

/-- What every run keeps, of either strategy and whatever the rules return. -/
theorem Strategy.explained_of_evaluate {strategy : Strategy} {env : σ} {run : Run σ Facts}
    (h : strategy.evaluate fuel limits stratum rules init env = some run) :
    run.Explained rules init ∧ run.Tallied rules.length := by
  refine Strategy.evaluate_keeps (P := fun run => run.Explained rules init ∧ run.Tallied rules.length)
    ⟨.start rules stratum init env, .start _ _ _ _⟩ ?_ ?_ h
  · intro run rule c ok member kept
    exact ⟨kept.1.perform (List.mem_of_getElem? member) c,
      kept.2.perform ok (List.getElem?_eq_some_iff.1 member).1⟩
  · intro run kept
    exact ⟨kept.1.countIteration, kept.2.countIteration⟩

/-! ### Rounds -/

namespace Naive

variable {τ : Type} [FactStore τ] {run : Run σ τ}

/-- The calls of a round that calls the first `n` rules. -/
def roundCalls (stratum n round : Nat) : List Call :=
  (List.range n).map fun i => ⟨i, ⟨stratum, round, i⟩, none⟩

theorem countP_roundCalls (stratum n round i : Nat) :
    (roundCalls stratum n round).countP (fun c => c.rule = i) = if i < n then 1 else 0 := by
  have once : (List.range n).countP (fun j => j = i) = (List.range n).count i := by
    simp only [List.count, beq_eq_decide]
  rw [roundCalls, List.countP_map]
  show (List.range n).countP (fun j => j = i) = _
  rw [once, List.count_range]

/-- The run consists of rounds that called every rule. -/
structure Rounded (stratum n : Nat) (run : Run σ τ) : Prop where
  tallied : run.Tallied n
  in_stratum : run.report.stratum = stratum
  calls : run.calls = (List.range run.report.iterations).flatMap (roundCalls stratum n)
  none_called : n = 0 → run.report.iterations = 0

omit [FactStore τ] in
/-- In every round each rule was called once. -/
theorem Rounded.callsOf {n i : Nat} (rounded : Rounded stratum n run) (inside : i < n) :
    run.callsOf i = run.report.iterations := by
  rw [Run.callsOf, rounded.calls, List.countP_flatMap]
  simp [Function.comp_def, countP_roundCalls, inside]

/-- The first `k` rules of a round were called. -/
structure Round.Upto (stratum n : Nat) (before : Run σ τ) (k : Nat) (s : Round σ τ) : Prop where
  tallied : s.run.Tallied n
  in_stratum : s.run.report.stratum = stratum
  iterations : s.run.report.iterations = before.report.iterations
  calls : s.run.failure = none →
    s.run.calls = before.calls ++ roundCalls stratum k before.report.iterations
  called : s.run.failure = none → s.called = k

/-- The limits allow the next rule, as it was called in every round before this one. -/
theorem Round.Upto.visit {k : Nat} {s : Round σ τ} (rounded : Rounded stratum rules.length run)
    (allowed : limits.allows run.report.iterations = true)
    (upto : s.Upto stratum rules.length run k) {rule : EvaluableRule σ}
    (member : rules[k]? = some rule) :
    (visit limits run.report.iterations s (rule, k)).Upto stratum rules.length run (k + 1) := by
  have inside : k < rules.length := (List.getElem?_eq_some_iff.1 member).1
  unfold Naive.visit
  dsimp only
  split
  · next stops =>
    have failed : s.run.failure ≠ none := by
      intro ok
      have calls : s.run.callsOf k = run.report.iterations := by
        rw [Run.callsOf, upto.calls ok, List.countP_append, countP_roundCalls, if_neg (Nat.lt_irrefl k),
          Nat.add_zero]
        exact rounded.callsOf inside
      have goes : s.run.allows limits k = true := by
        rw [Run.allows, upto.tallied.counted ok, calls]
        exact allowed
      simp [ok, goes] at stops
    exact ⟨upto.tallied, upto.in_stratum, upto.iterations, fun ok => absurd ok failed,
      fun ok => absurd ok failed⟩
  · next goes =>
    obtain ⟨ok, -⟩ := Run.goes_on goes
    obtain ⟨same_stratum, same_iterations⟩ := Run.iterations_perform s.run rule
      ⟨k, ⟨s.run.report.stratum, run.report.iterations, k⟩, none⟩
    refine ⟨upto.tallied.perform ok inside, same_stratum.trans upto.in_stratum,
      same_iterations.trans upto.iterations, fun _ => ?_, fun _ => congrArg (· + 1) (upto.called ok)⟩
    rw [Run.calls_perform, upto.calls ok, upto.in_stratum, List.append_assoc]
    simp only [roundCalls, List.range_succ, List.map_append, List.map_singleton]

/-- A round that does not fail calls every rule. -/
theorem Rounded.round (rounded : Rounded stratum rules.length run)
    (allowed : limits.allows run.report.iterations = true)
    (ok : (round limits rules run).run.failure = none) :
    Rounded stratum rules.length (round limits rules run).run := by
  have start : Round.Upto stratum rules.length run 0 { run } :=
    ⟨rounded.tallied, rounded.in_stratum, rfl, fun _ => (List.append_nil _).symm, fun _ => rfl⟩
  have upto := foldl_zipIdx_keeps (F := Round.Upto stratum rules.length run)
    (fun k rule s member upto => upto.visit rounded allowed member) start
  unfold Naive.round at ok ⊢
  dsimp only at ok ⊢
  split at ok
  · next ends =>
    rw [if_pos ends]
    have empty : rules.length = 0 := by
      rw [ok, upto.called ok] at ends
      simpa using ends
    have unchanged := upto.calls ok
    rw [empty] at unchanged
    refine ⟨upto.tallied, upto.in_stratum, ?_, fun _ => upto.iterations.trans (rounded.none_called empty)⟩
    rw [upto.iterations, unchanged, ← rounded.calls]
    exact List.append_nil _
  · next counts =>
    rw [if_neg counts]
    refine ⟨upto.tallied.countIteration, upto.in_stratum, ?_, fun empty => ?_⟩
    · show _ = (List.range (_ + 1)).flatMap _
      rw [upto.iterations, List.range_succ, List.flatMap_append, ← rounded.calls, upto.calls ok]
      simp only [List.flatMap_singleton]
    · rw [upto.called ok, empty] at counts
      simp at counts

/-- A naive run consists of whole rounds. -/
theorem rounded_of_loop (rounded : Rounded stratum rules.length run)
    (allowed : limits.allows run.report.iterations = true) {run' : Run σ τ}
    (h : loop limits rules fuel run = some run') (ok : run'.failure = none) :
    Rounded stratum rules.length run' := by
  induction fuel generalizing run with
  | zero => cases h
  | succ fuel ih =>
    rw [loop] at h
    split at h
    · cases h
      exact rounded.round allowed ok
    · next goes =>
      rw [finished, Bool.or_eq_true, Bool.or_eq_true, not_or, not_or, Bool.not_eq_true,
        Option.isSome_eq_false_iff, Option.isNone_iff_eq_none] at goes
      obtain ⟨⟨ok', -⟩, some_allowed⟩ := goes
      have next := rounded.round allowed ok'
      rw [Bool.not_eq_true', Bool.not_eq_false, List.any_eq_true] at some_allowed
      obtain ⟨i, inside, allowed'⟩ := some_allowed
      rw [Run.allows, next.tallied.counted ok', next.callsOf (List.mem_range.1 inside)] at allowed'
      exact ih next allowed' h

/-- A naive run that did not fail called every rule in every round, and counts those rounds. -/
theorem rounded_of_evaluate {store : τ} {env : σ}
    (h : evaluate fuel limits stratum rules store env = some run) (ok : run.failure = none) :
    Rounded stratum rules.length run := by
  have start : Rounded stratum rules.length (.start stratum rules.length store env : Run σ τ) :=
    ⟨.start _ _ _ _, rfl, rfl, fun _ => rfl⟩
  have allowed : limits.allows 0 = true := by
    simp [Limits.allows, Nat.pos_iff_ne_zero, Classical.em]
  exact rounded_of_loop start allowed h ok

end Naive

/-- A dependency-aware run that did not fail counts the first round and the calls for new tuples. -/
theorem Dependency.iterations_of_evaluate {τ : Type} [FactStore τ] {store : τ} {env : σ}
    {run : Run σ τ} (h : evaluate fuel limits stratum rules store env = some run)
    (ok : run.failure = none) :
    run.report.iterations = 1 + run.calls.countP (·.deltas.isSome) := by
  have listed (run : Run σ τ) (rule : EvaluableRule σ) (c : Call) :
      (run.perform rule c).1.calls.countP (·.deltas.isSome) =
        run.calls.countP (·.deltas.isSome) + if c.deltas.isSome then 1 else 0 := by
    rw [Run.calls_perform, List.countP_append, List.countP_singleton]
  let Counted (s : Run σ τ × Worklist) : Prop := s.1.failure = none →
    s.1.report.iterations = 1 + s.1.calls.countP (·.deltas.isSome)
  suffices counted : ∃ w, Counted (run, w) ∧ (run.failure = none → w = []) from
    counted.elim fun w counted => counted.1 ok
  refine evaluate_keeps
    (F := fun _ s => s.1.report.iterations = s.1.calls.countP (·.deltas.isSome))
    rfl ?_ ?_ (fun _ _ _ _ _ kept => kept) ?_ h
  · intro k rule s member kept
    unfold visit
    dsimp only
    split
    · exact kept
    · rw [step_fst, (Run.iterations_perform ..).2, listed, kept]
      rfl
  · intro s kept
    dsimp only
    split
    · next failed =>
      intro ok
      rw [ok] at failed
      cases failed
    · intro _
      show s.1.report.iterations + 1 = _
      rw [kept, Nat.add_comm]
  · intro run i new w rule ok member kept _
    rw [step_fst, (Run.iterations_perform ..).2, listed]
    show run.report.iterations + 1 = _
    rw [kept ok, Nat.add_assoc]
    rfl

/-- **Reports are exact.** Take a run of either strategy over facts in memory that did not fail, whatever
the rules returned and the limits were. The facts of every predicate are those of the start and, apart
from them, those that the report lists. It lists predicates that are heads of rules and got new tuples,
and counts these tuples. It says for every rule how often it was called. A naive run consists of as many
rounds as the report says, each of which called every rule, so there are none if there are no rules. A
dependency-aware run counts the first round and every call for new tuples. -/
theorem Strategy.report_exact {strategy : Strategy} {env : σ} {run : Run σ Facts}
    (h : strategy.evaluate fuel limits stratum rules init env = some run) (ok : run.failure = none) :
    (∀ p, (∀ t ∈ init.scan p, t ∉ run.report.derived.scan p) ∧
      run.store.scan p = (init.scan p).union (run.report.derived.scan p)) ∧
    (∀ p r, run.report.derived.get? p = some r →
      r.isEmpty = false ∧ ∃ rule ∈ rules, rule.head = p) ∧
    run.report.newFacts = (run.report.derived.values.map SortedSet.size).sum ∧
    run.report.evaluations = (List.range rules.length).map run.callsOf ∧
    match strategy with
    | .naive =>
      run.calls =
        (List.range run.report.iterations).flatMap (Naive.roundCalls stratum rules.length) ∧
      (rules = [] → run.report.iterations = 0)
    | .dependency => run.report.iterations = 1 + run.calls.countP (·.deltas.isSome) := by
  obtain ⟨explained, tallied⟩ := Strategy.explained_of_evaluate h
  refine ⟨explained.union, fun p r found => explained.listed found, explained.total,
    tallied.evaluations ok, ?_⟩
  cases strategy with
  | naive =>
    have rounded := Naive.rounded_of_evaluate h ok
    exact ⟨rounded.calls, fun empty => rounded.none_called (by rw [empty]; rfl)⟩
  | dependency => exact Dependency.iterations_of_evaluate h ok

/-- Two rules with one head that return the same tuples, and a rule that returns one tuple again and
again. -/
def echoes : List Script :=
  [⟨"a", ["b"], 4, none, false⟩, ⟨"a", ["a"], 3, none, false⟩, ⟨"b", ["a"], 3, none, true⟩]

/-- The first tuple that two of the rules return. -/
def echoed : Facts := Facts.ofList [(⟨"a", 2⟩, SortedSet.ofList [[.str "a", .int 1]])]

/-- Of nine calls in three rounds three bring something new, and of six calls two do. -/
theorem report_exact_of_echoes :
    ∃ run run', Strategy.naive.evaluate 20 ⟨3⟩ 7 (Script.rules echoes) echoed [0, 0, 0] = some run ∧
      run.failure = none ∧
      (∀ p, run.store.scan p = (echoed.scan p).union (run.report.derived.scan p)) ∧
      run.report.newFacts = 3 ∧ run.report.derived.values.map SortedSet.size = [2, 1] ∧
      (List.range 3).map run.callsOf = [3, 3, 3] ∧
      run.calls = (List.range 3).flatMap (Naive.roundCalls 7 3) ∧
      Strategy.dependency.evaluate 20 ⟨3⟩ 7 (Script.rules echoes) echoed [0, 0, 0] = some run' ∧
      run'.failure = none ∧
      (∀ p, run'.store.scan p = (echoed.scan p).union (run'.report.derived.scan p)) ∧
      run'.report.newFacts = 2 ∧ run'.report.derived.values.map SortedSet.size = [1, 1] ∧
      (List.range 3).map run'.callsOf = [2, 2, 2] ∧ run'.calls.countP (·.deltas.isSome) = 3 := by
  have evaluated : (Strategy.naive.evaluate 20 ⟨3⟩ 7 (Script.rules echoes) echoed [0, 0, 0]).map
      (fun run => (run.failure, run.report.newFacts, run.report.derived.values.map SortedSet.size,
        run.report.evaluations, run.report.iterations)) =
      some (none, 3, [2, 1], [3, 3, 3], 3) := by decide +kernel
  have evaluated' : (Strategy.dependency.evaluate 20 ⟨3⟩ 7 (Script.rules echoes) echoed
      [0, 0, 0]).map (fun run => (run.failure, run.report.newFacts,
        run.report.derived.values.map SortedSet.size, run.report.evaluations,
        run.report.iterations)) = some (none, 2, [1, 1], [2, 2, 2], 4) := by decide +kernel
  obtain ⟨run, h, answered⟩ := Option.map_eq_some_iff.1 evaluated
  obtain ⟨run', h', answered'⟩ := Option.map_eq_some_iff.1 evaluated'
  simp only [Prod.mk.injEq] at answered answered'
  obtain ⟨ok, total, sizes, counted, rounds⟩ := answered
  obtain ⟨ok', total', sizes', counted', steps⟩ := answered'
  obtain ⟨facts, -, -, calls, listed, -⟩ := Strategy.report_exact h ok
  obtain ⟨facts', -, -, calls', deltas⟩ := Strategy.report_exact h' ok'
  rw [rounds] at listed
  rw [counted] at calls
  rw [counted'] at calls'
  have three : run'.calls.countP (·.deltas.isSome) = 3 := by omega
  exact ⟨run, run', h, ok, fun p => (facts p).2, total, sizes, calls.symm, listed, h', ok',
    fun p => (facts' p).2, total', sizes', calls'.symm, three⟩

end Datalog
