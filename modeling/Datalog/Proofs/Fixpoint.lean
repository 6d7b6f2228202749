import Datalog.Proofs.CallByCall
import Datalog.Proofs.Runs

/-!
# Both strategies reach the least fixpoint

A round of the naive strategy that adds nothing has called every rule on the same facts, so no rule
returns anything more (`Naive.Quiet`). The other strategy never looks at all facts again. What carries it
is that a rule has, at any time, answered on older facts that lack no more than the tuples it waits with
(`Dependency.Covered`); when nothing waits, these are all facts. A run that fails ends before that, and
all that is known of it is that it has grown.
-/

namespace Datalog

section Strategies

variable {σ τ : Type} [FactStore τ] {Kind : τ → Prop} {Good : Facts → Prop}
  {rules : List (EvaluableRule σ)} {init : Facts} {limits : Limits}

/-- Facts with the same tuples give the same. -/
theorem Run.Saturated.congr {run run' : Run σ τ} {rule : EvaluableRule σ}
    (incremental : rule.Incremental Good) (good : Good run.facts) (good' : Good run'.facts)
    (same : run'.facts.model = run.facts.model) (saturated : run'.Saturated rule) :
    run.Saturated rule := by
  obtain ⟨out, answers, stored⟩ := saturated
  refine ⟨out, incremental.local_reads _ _ good' good (fun p _ => by rw [same]) out answers, ?_⟩
  rw [← Facts.scan_eq_of_model_eq (congrFun same rule.head)]
  exact stored

/-! ### The naive strategy -/

namespace Naive

variable {s : Round σ τ} {round k : Nat} {before : Run σ τ}

/-- A round that began with `before`, before the visit of rule number `k`. As long as nothing is added,
the tuples are those at the beginning, and the rules visited are saturated. -/
structure Quiet (Kind : τ → Prop) (Good : Facts → Prop) (rules : List (EvaluableRule σ)) (init : Facts)
    (before : Run σ τ) (k : Nat) (s : Round σ τ) : Prop where
  growth : s.run.Growth Kind Good rules init
  quiet : s.run.failure = none → s.added = 0 → s.run.facts.model = before.facts.model ∧
    ∀ (i : Nat) (rule : EvaluableRule σ), i < k → rules[i]? = some rule → before.Saturated rule

theorem Quiet.visit (reliable : FactStore.Reliable Kind)
    (incremental : ∀ rule ∈ rules, rule.Incremental Good) (unlimited : limits.maxEvaluations = 0)
    (good : Good before.facts) (q : Quiet Kind Good rules init before k s) {rule : EvaluableRule σ}
    (member : rules[k]? = some rule) :
    Quiet Kind Good rules init before (k + 1) (visit limits round s (rule, k)) := by
  have listed : rule ∈ rules := List.mem_of_getElem? member
  cases failure : s.run.failure with
  | some e =>
    have passed : Naive.visit limits round s (rule, k) = s := by simp [Naive.visit, failure]
    rw [passed]
    exact ⟨q.growth, fun ok => absurd (failure.symm.trans ok) (by simp)⟩
  | none =>
    let c : Call := ⟨k, ⟨s.run.report.stratum, round, k⟩, none⟩
    have called : Naive.visit limits round s (rule, k) =
        { run := (s.run.perform rule c).1, called := s.called + 1
          added := s.added + (s.run.perform rule c).2.size } := by
      unfold Naive.visit
      simp only [failure, Run.allows, Limits.allows_of_unlimited unlimited]
      rfl
    rw [called]
    refine ⟨q.growth.perform reliable failure listed (incremental rule listed) (by simp [c]), ?_⟩
    intro ok nothing
    cases answer : rule.call c.context c.deltas s.run.facts s.run.env with
    | mk result env =>
      cases result with
      | error e =>
        rw [Run.perform_of_error answer] at ok
        cases ok
      | ok out =>
        obtain ⟨store, -, grown, performed⟩ := Run.perform_of_answer reliable q.growth.kind answer
        rw [performed] at nothing ⊢
        obtain ⟨nothing, none_new⟩ := Nat.add_eq_zero_iff.1 nothing
        obtain ⟨same, visited⟩ := q.quiet failure nothing
        have stored : ∀ t ∈ out, t ∈ s.run.facts.scan rule.head := by
          intro t ht
          by_contra missing
          have new : t ∈ out.diff (s.run.facts.scan rule.head) := SortedSet.mem_diff.2 ⟨ht, missing⟩
          rw [SortedSet.mem_def, List.eq_nil_of_length_eq_zero none_new] at new
          cases new
        have own : s.run.Saturated rule :=
          ⟨out, (incremental rule listed).same _ q.growth.good _ _ _ _ answer, stored⟩
        refine ⟨?_, fun i rule' before_next member' => ?_⟩
        · rw [← same]
          show (FactStore.facts store).model = s.run.facts.model
          rw [grown]
          exact le_antisymm (Facts.model_add_le le_rfl stored) (Facts.model_le_add _ _ _)
        · rcases Nat.lt_succ_iff_lt_or_eq.1 before_next with earlier | rfl
          · exact visited i rule' earlier member'
          · cases member.symm.trans member'
            exact own.congr (incremental rule listed) good q.growth.good same

/-- After a round that adds nothing, every rule is saturated. -/
theorem saturated_round (reliable : FactStore.Reliable Kind)
    (incremental : ∀ rule ∈ rules, rule.Incremental Good) (unlimited : limits.maxEvaluations = 0)
    (g : before.Growth Kind Good rules init)
    (ok : (Naive.round limits rules before).run.failure = none)
    (nothing : (Naive.round limits rules before).added = 0) {rule : EvaluableRule σ}
    (member : rule ∈ rules) : (Naive.round limits rules before).run.Saturated rule := by
  have start : Quiet Kind Good rules init before 0 { run := before } :=
    ⟨g, fun _ _ => ⟨rfl, fun i _ below => absurd below (Nat.not_lt_zero i)⟩⟩
  have visited := foldl_zipIdx_keeps (f := visit limits before.report.iterations)
    (F := Quiet Kind Good rules init before)
    (fun _ _ _ member q => q.visit reliable incremental unlimited g.good member) start
  generalize hs : rules.zipIdx.foldl (visit limits before.report.iterations) { run := before } = s
    at visited
  have after : (Naive.round limits rules before).run.facts = s.run.facts ∧
      (Naive.round limits rules before).run.failure = s.run.failure ∧
      (Naive.round limits rules before).added = s.added := by
    unfold Naive.round
    dsimp only
    rw [hs]
    split <;> exact ⟨rfl, rfl, rfl⟩
  obtain ⟨same, all⟩ := visited.quiet (after.2.1 ▸ ok) (after.2.2 ▸ nothing)
  obtain ⟨i, hi⟩ := List.mem_iff_getElem?.1 member
  refine (all i rule (List.getElem?_eq_some_iff.1 hi).1 hi).congr (incremental rule member) ?_ g.good ?_
  · rw [after.1]
    exact visited.growth.good
  · rw [after.1]
    exact same.symm

/-- **A naive run grows, and without a limit ends saturated** or fails. -/
theorem loop_spec (reliable : FactStore.Reliable Kind)
    (incremental : ∀ rule ∈ rules, rule.Incremental Good) {fuel : Nat} {run run' : Run σ τ}
    (g : run.Growth Kind Good rules init) (h : loop limits rules fuel run = some run') :
    run'.Growth Kind Good rules init ∧
      (limits.maxEvaluations = 0 → run'.failure = none → ∀ rule ∈ rules, run'.Saturated rule) := by
  induction fuel generalizing run with
  | zero => cases h
  | succ fuel ih =>
    have g' : (Naive.round limits rules run).run.Growth Kind Good rules init := by
      refine round_keeps (fun run rule i ctx ok member _ g => ?_) (fun _ g => g.countIteration) g
      have listed : rule ∈ rules := List.mem_of_getElem? member
      exact g.perform reliable ok listed (incremental rule listed) (by simp)
    rw [loop] at h
    split at h
    · next ended =>
      cases h
      refine ⟨g', fun unlimited ok rule member => ?_⟩
      have allowed : ((List.range rules.length).any fun i =>
          (Naive.round limits rules run).run.allows limits i) = true := by
        have positive := List.length_pos_of_mem member
        exact List.any_eq_true.2 ⟨0, List.mem_range.2 positive, Limits.allows_of_unlimited unlimited _⟩
      have nothing : (Naive.round limits rules run).added = 0 := by
        simpa [finished, ok, allowed] using ended
      exact saturated_round reliable incremental unlimited g ok nothing member
    · exact ih g' h

end Naive

/-! ### The dependency-aware strategy -/

namespace Dependency

namespace Worklist

/-- The tuples that rule number `i` waits with. -/
def pending (w : Worklist) (i : Nat) : Interpretation :=
  fun p => {t | ∃ new, (i, new) ∈ w ∧ t ∈ new.scan p}

/-- Every rule waits at most once, with tuples that are stored. -/
structure Fits (w : Worklist) (facts : Facts) : Prop where
  once : (w.map Prod.fst).Nodup
  stored : ∀ e ∈ w, e.2.model ≤ facts.model

variable {w : Worklist} {facts : Facts} {i : Nat} {p : Predicate} {added : Relation}

theorem Fits.nil (facts : Facts) : Fits [] facts := ⟨List.nodup_nil, by simp⟩

theorem Fits.mono {more : Facts} (fits : w.Fits facts) (le : facts.model ≤ more.model) :
    w.Fits more := ⟨fits.once, fun e he => (fits.stored e he).trans le⟩

theorem any_index : (w.any fun e => e.1 == i) = true ↔ i ∈ w.map Prod.fst := by
  simp

/-- Whoever waits already keeps the place. -/
theorem map_fst_schedule :
    (w.schedule i p added).map Prod.fst =
      if i ∈ w.map Prod.fst then w.map Prod.fst else w.map Prod.fst ++ [i] := by
  unfold schedule
  by_cases h : i ∈ w.map Prod.fst
  · rw [if_pos (any_index.2 h), if_pos h, List.map_map]
    refine List.map_congr_left fun e _ => ?_
    by_cases same : e.1 = i <;> simp [same]
  · rw [if_neg fun h' => h (any_index.1 h'), if_neg h, List.map_append]
    rfl

/-- Nobody comes to wait twice. -/
theorem nodup_schedule (once : (w.map Prod.fst).Nodup) :
    ((w.schedule i p added).map Prod.fst).Nodup := by
  rw [map_fst_schedule]
  split
  · exact once
  · next fresh =>
    rw [List.nodup_append]
    refine ⟨once, List.nodup_singleton i, fun a ha b hb same => ?_⟩
    rw [List.mem_singleton.1 hb] at same
    exact fresh (same ▸ ha)

/-- A rule waits with what it waited with, or with the tuples just scheduled. -/
theorem mem_schedule {e : Nat × Facts} (he : e ∈ w.schedule i p added) :
    e ∈ w ∨ e.1 = i ∧ ∃ new, (new = ∅ ∨ (i, new) ∈ w) ∧ e.2 = new.add p added := by
  unfold schedule at he
  split at he
  · obtain ⟨e', he', rfl⟩ := List.mem_map.1 he
    by_cases same : e'.1 = i
    · rw [if_pos same]
      exact .inr ⟨rfl, e'.2, .inr (same ▸ he'), rfl⟩
    · rw [if_neg same]
      exact .inl he'
  · rcases List.mem_append.1 he with he | he
    · exact .inl he
    · rw [List.mem_singleton.1 he]
      exact .inr ⟨rfl, ∅, .inl rfl, rfl⟩

theorem Fits.schedule (fits : w.Fits facts) (stored : ∀ t ∈ added, t ∈ facts.scan p) :
    (w.schedule i p added).Fits facts where
  once := nodup_schedule fits.once
  stored e he := by
    rcases mem_schedule he with he | ⟨-, new, from_old, heq⟩
    · exact fits.stored e he
    · have below : new.model ≤ facts.model := by
        rcases from_old with rfl | waits
        · intro q t ht
          exact absurd ht SortedSet.not_mem_empty
        · exact fits.stored _ waits
      rw [heq]
      exact Facts.model_add_le below stored

/-- No tuple that a rule waits with is lost. -/
theorem pending_le_schedule (w : Worklist) (i j : Nat) (p : Predicate) (added : Relation) :
    w.pending j ≤ (w.schedule i p added).pending j := by
  rintro q t ⟨new, waits, ht⟩
  unfold schedule
  split
  · by_cases same : j = i
    · subst same
      refine ⟨new.add p added, List.mem_map.2 ⟨_, waits, if_pos rfl⟩, ?_⟩
      exact Facts.mem_scan_add.2 (.inl ht)
    · exact ⟨new, List.mem_map.2 ⟨_, waits, if_neg same⟩, ht⟩
  · exact ⟨new, List.mem_append_left _ waits, ht⟩

/-- The scheduled rule waits with the tuples scheduled. -/
theorem added_le_schedule (w : Worklist) (i : Nat) (p : Predicate) (added : Relation) :
    ∀ t ∈ added, t ∈ (w.schedule i p added).pending i p := by
  intro t ht
  unfold schedule
  split
  · next waiting =>
    obtain ⟨⟨j, new⟩, waits, same⟩ := List.any_eq_true.1 waiting
    have at_i : j = i := by simpa using same
    refine ⟨new.add p added, List.mem_map.2 ⟨_, waits, if_pos at_i⟩, ?_⟩
    exact Facts.mem_scan_add.2 (.inr ⟨rfl, ht⟩)
  · refine ⟨Facts.add ∅ p added, List.mem_append_right _ (List.mem_singleton.2 rfl), ?_⟩
    exact Facts.mem_scan_add.2 (.inr ⟨rfl, ht⟩)

/-- Once a rule is served, it waits no more. -/
theorem pending_of_pop {new : Facts} (fits : Fits ((i, new) :: w) facts) (q : Predicate) :
    pending ((i, new) :: w) i q = new.model q ∧ pending w i q = ∅ := by
  have served : ∀ new', (i, new') ∉ w := by
    intro new' waits
    exact (List.nodup_cons.1 fits.once).1 (List.mem_map.2 ⟨_, waits, rfl⟩)
  constructor
  · ext t
    constructor
    · rintro ⟨new', waits, ht⟩
      rcases List.mem_cons.1 waits with same | waits
      · cases same
        exact ht
      · exact absurd waits (served new')
    · intro ht
      exact ⟨new, List.mem_cons_self, ht⟩
  · rw [Set.eq_empty_iff_forall_notMem]
    rintro t ⟨new', waits, -⟩
    exact served new' waits

theorem pending_of_pop_of_ne {new : Facts} {j : Nat} (ne : j ≠ i) :
    pending ((i, new) :: w) j = pending w j := by
  funext q
  ext t
  simp [pending, ne]

end Worklist

open Worklist

omit [FactStore τ] in
/-- The tuples just added wait for every reader of their predicate, and all else waits as before. -/
theorem foldl_schedule {run : Run σ τ} {head : Predicate} {added : Relation} {facts : Facts}
    (stored : ∀ t ∈ added, t ∈ facts.scan head) (es : List (EvaluableRule σ × Nat)) {w w' : Worklist}
    (fits : w.Fits facts)
    (h : w' = es.foldl (fun w (rule, i) =>
      if rule.reads.contains head && run.allows limits i then w.schedule i head added else w) w) :
    w'.Fits facts ∧ (∀ j, w.pending j ≤ w'.pending j) ∧
      ∀ e ∈ es, head ∈ e.1.reads → run.allows limits e.2 = true →
        ∀ t ∈ added, t ∈ w'.pending e.2 head := by
  induction es generalizing w with
  | nil => exact ⟨h ▸ fits, fun j => by rw [h]; exact le_rfl, by simp⟩
  | cons e es ih =>
    obtain ⟨rule, i⟩ := e
    rw [List.foldl_cons] at h
    by_cases reader : (rule.reads.contains head && run.allows limits i) = true
    · simp only [reader, if_true] at h
      obtain ⟨fits', more, waits⟩ := ih (fits.schedule stored) h
      refine ⟨fits', fun j => (pending_le_schedule w i j head added).trans (more j), ?_⟩
      refine List.forall_mem_cons.2 ⟨fun _ _ t ht => ?_, waits⟩
      exact more i head (added_le_schedule w i head added t ht)
    · simp only [reader] at h
      obtain ⟨fits', more, waits⟩ := ih fits h
      refine ⟨fits', more, List.forall_mem_cons.2 ⟨fun reads allowed => ?_, waits⟩⟩
      exact absurd (by simp [reads, allowed]) reader

omit [FactStore τ] in
theorem scheduleReaders_spec (limits : Limits) (rules : List (EvaluableRule σ)) (run : Run σ τ)
    {head : Predicate} {added : Relation} {facts : Facts} {w : Worklist}
    (stored : ∀ t ∈ added, t ∈ facts.scan head) (fits : w.Fits facts) :
    (scheduleReaders limits rules run head added w).Fits facts ∧
      (∀ j, w.pending j ≤ (scheduleReaders limits rules run head added w).pending j) ∧
      ∀ e ∈ rules.zipIdx, head ∈ e.1.reads → run.allows limits e.2 = true → ∀ t ∈ added,
        t ∈ (scheduleReaders limits rules run head added w).pending e.2 head := by
  unfold scheduleReaders
  split
  · next empty =>
    refine ⟨fits, fun j => le_rfl, fun e _ _ _ t ht => ?_⟩
    exact absurd ht (SortedSet.isEmpty_iff.1 empty t)
  · exact foldl_schedule stored rules.zipIdx fits rfl

/-- What holds at any time of a run and the rules that wait. -/
structure Running (Kind : τ → Prop) (Good : Facts → Prop) (rules : List (EvaluableRule σ))
    (init : Facts) (s : Run σ τ × Worklist) : Prop where
  growth : s.1.Growth Kind Good rules init
  fits : s.2.Fits s.1.facts

/-- The rule has answered on older facts, which lack no more than the tuples it waits with, and the
answer is stored. -/
structure CoveredBy (Good : Facts → Prop) (s : Run σ τ × Worklist) (e : EvaluableRule σ × Nat)
    (old : Facts) (out : Relation) : Prop where
  good : Good old
  older : old.model ≤ s.1.facts.model
  answers : e.1.Answers old out
  stored : ∀ t ∈ out, t ∈ s.1.facts.scan e.1.head
  lacks : ∀ p ∈ e.1.reads, s.1.facts.model p ⊆ old.model p ∪ s.2.pending e.2 p

/-- A rule that is called only for new tuples from now on will have been called for all. -/
def Covered (Good : Facts → Prop) (s : Run σ τ × Worklist) (e : EvaluableRule σ × Nat) : Prop :=
  ∃ old out, CoveredBy Good s e old out

/-- A run that may have to go on: as long as it has not failed, the first `k` rules are covered. -/
structure Covering (Kind : τ → Prop) (Good : Facts → Prop) (limits : Limits)
    (rules : List (EvaluableRule σ)) (init : Facts) (k : Nat) (s : Run σ τ × Worklist) : Prop where
  running : Running Kind Good rules init s
  covered : limits.maxEvaluations = 0 → s.1.failure = none → ∀ (i : Nat) (rule : EvaluableRule σ), i < k →
    rules[i]? = some rule → Covered Good s (rule, i)

variable {s s' : Run σ τ × Worklist} {k : Nat}

/-- What a step does: the store takes what the rule returned, nothing that waited is lost, and the
readers of the head wait with what was new. -/
structure Stepped (rules : List (EvaluableRule σ)) (limits : Limits) (rule : EvaluableRule σ)
    (out : Relation) (s s' : Run σ τ × Worklist) : Prop where
  facts : s'.1.facts = s.1.facts.add rule.head out
  pending : ∀ j, s.2.pending j ≤ s'.2.pending j
  scheduled : limits.maxEvaluations = 0 → ∀ (i : Nat) (reader : EvaluableRule σ),
    rules[i]? = some reader → rule.head ∈ reader.reads →
    ∀ t ∈ out, t ∉ s.1.facts.scan rule.head → t ∈ s'.2.pending i rule.head

/-- A step keeps a run running; if it does not fail, the rule has answered. -/
theorem step_spec (reliable : FactStore.Reliable Kind) (r : Running Kind Good rules init s)
    (ok : s.1.failure = none) {rule : EvaluableRule σ} (member : rule ∈ rules)
    (incremental : rule.Incremental Good) (limits : Limits) (c : Call)
    (new_stored : ∀ new ∈ c.deltas, new.model ≤ s.1.facts.model) :
    Running Kind Good rules init (step limits rules rule c s) ∧
      ((step limits rules rule c s).1.failure = none → ∃ out env env',
        rule.call c.context c.deltas s.1.facts env = (.ok out, env') ∧
        Stepped rules limits rule out s (step limits rules rule c s)) := by
  obtain ⟨run, w⟩ := s
  have growth := r.growth.perform reliable ok member incremental new_stored
  cases answer : rule.call c.context c.deltas run.facts run.env with
  | mk result env =>
    cases result with
    | error e =>
      have performed := Run.perform_of_error answer
      rw [step_of_error (e := e) (by rw [performed])]
      rw [performed] at growth ⊢
      exact ⟨⟨growth, r.fits⟩, fun still => by cases still⟩
    | ok out =>
      obtain ⟨store, -, grown, performed⟩ := Run.perform_of_answer reliable r.growth.kind answer
      have still : (run.perform rule c).1.failure = none := by rw [performed, ok]
      rw [step_of_ok still]
      have facts : (run.perform rule c).1.facts = run.facts.add rule.head out := by
        rw [performed]
        exact grown
      have added : (run.perform rule c).2 = out.diff (run.facts.scan rule.head) := by rw [performed]
      have more : run.facts.model ≤ (run.perform rule c).1.facts.model := by
        rw [facts]
        exact Facts.model_le_add _ _ _
      have stored : ∀ t ∈ (run.perform rule c).2, t ∈ (run.perform rule c).1.facts.scan rule.head := by
        intro t ht
        rw [added] at ht
        rw [facts]
        exact Facts.mem_scan_add.2 (.inr ⟨rfl, (SortedSet.mem_diff.1 ht).1⟩)
      obtain ⟨fits, kept, scheduled⟩ :=
        scheduleReaders_spec limits rules (run.perform rule c).1 stored (r.fits.mono more)
      refine ⟨⟨growth, fits⟩, fun _ => ⟨out, run.env, env, answer, facts, kept, ?_⟩⟩
      intro unlimited i reader at_i reads t ht new
      refine scheduled (reader, i) (List.mem_zipIdx_iff_getElem?.2 at_i) reads
        (Limits.allows_of_unlimited unlimited _) t ?_
      rw [added]
      exact SortedSet.mem_diff.2 ⟨ht, new⟩

section Stepping

variable {rule reader : EvaluableRule σ} {out : Relation} {i : Nat}

theorem Stepped.grows (stepped : Stepped rules limits rule out s s') :
    s.1.facts.model ≤ s'.1.facts.model := by
  rw [stepped.facts]
  exact Facts.model_le_add _ _ _

/-- After a step, what is stored was stored before or waits for those who read it. -/
theorem Stepped.cover (stepped : Stepped rules limits rule out s s')
    (unlimited : limits.maxEvaluations = 0) (member : rules[i]? = some reader) :
    ∀ p ∈ reader.reads, s'.1.facts.model p ⊆ s.1.facts.model p ∪ s'.2.pending i p := by
  intro p reads t ht
  rw [stepped.facts] at ht
  rcases Facts.mem_scan_add.1 ht with old | ⟨rfl, returned⟩
  · exact .inl old
  · by_cases old : t ∈ s.1.facts.scan rule.head
    · exact .inl old
    · exact .inr (stepped.scheduled unlimited i reader member reads t returned old)

/-- A step keeps every rule covered. -/
theorem Covered.stepped (covered : Covered Good s (reader, i))
    (stepped : Stepped rules limits rule out s s') (unlimited : limits.maxEvaluations = 0)
    (member : rules[i]? = some reader) :
    Covered Good s' (reader, i) := by
  obtain ⟨old, answer, by_old⟩ := covered
  refine ⟨old, answer, by_old.good, by_old.older.trans stepped.grows, by_old.answers,
    fun t ht => stepped.grows _ (by_old.stored t ht), fun p reads t ht => ?_⟩
  rcases stepped.cover unlimited member p reads ht with before | waits
  · exact (by_old.lacks p reads before).imp id fun waited => stepped.pending i p waited
  · exact .inr waits

/-- A step for a rule covers it, if the facts then have its answer against those before. -/
theorem Stepped.covered {all : Relation} (stepped : Stepped rules limits rule out s s')
    (unlimited : limits.maxEvaluations = 0) (member : rules[i]? = some rule) (good : Good s.1.facts)
    (answers : rule.Answers s.1.facts all)
    (complete : ∀ t ∈ all, t ∈ s.1.facts.scan rule.head ∨ t ∈ out) : Covered Good s' (rule, i) := by
  refine ⟨s.1.facts, all, good, stepped.grows, answers, fun t ht => ?_, stepped.cover unlimited member⟩
  rw [stepped.facts]
  exact Facts.mem_scan_add.2 ((complete t ht).imp id fun returned => ⟨rfl, returned⟩)

end Stepping

/-- A visit in the first round covers the rule that it calls. -/
theorem Covering.visit (reliable : FactStore.Reliable Kind)
    (incremental : ∀ rule ∈ rules, rule.Incremental Good)
    (c : Covering Kind Good limits rules init k s) {rule : EvaluableRule σ}
    (member : rules[k]? = some rule) :
    Covering Kind Good limits rules init (k + 1) (visit limits rules s (rule, k)) := by
  have listed : rule ∈ rules := List.mem_of_getElem? member
  unfold Dependency.visit
  dsimp only
  split
  · next passed =>
    refine ⟨c.running, fun unlimited ok => ?_⟩
    rw [ok, Run.allows, Limits.allows_of_unlimited unlimited] at passed
    cases passed
  · next goes =>
    obtain ⟨ok, -⟩ := Run.goes_on goes
    obtain ⟨running, answered⟩ := step_spec reliable c.running ok listed (incremental rule listed) limits
      ⟨k, ⟨s.1.report.stratum, 0, k⟩, none⟩ (by simp)
    refine ⟨running, fun unlimited still i reader before_next at_i => ?_⟩
    obtain ⟨out, env, env', answer, stepped⟩ := answered still
    rcases Nat.lt_succ_iff_lt_or_eq.1 before_next with earlier | rfl
    · exact (c.covered unlimited ok i reader earlier at_i).stepped stepped unlimited at_i
    · cases member.symm.trans at_i
      have answers : rule.Answers s.1.facts out :=
        (incremental rule listed).same _ c.running.growth.good _ _ _ _ answer
      exact stepped.covered unlimited member c.running.growth.good answers fun t ht => .inr ht

theorem Running.countIteration {run : Run σ τ} {w : Worklist} (r : Running Kind Good rules init (run, w)) :
    Running Kind Good rules init ({ run with report := run.report.countIteration }, w) :=
  ⟨r.growth.countIteration, r.fits⟩

theorem Covering.countIteration {run : Run σ τ} {w : Worklist}
    (c : Covering Kind Good limits rules init k (run, w)) :
    Covering Kind Good limits rules init k ({ run with report := run.report.countIteration }, w) where
  running := c.running.countIteration
  covered unlimited ok i rule below member := by
    obtain ⟨old, out, good, older, answers, stored, lacks⟩ := c.covered unlimited ok i rule below member
    exact ⟨old, out, good, older, answers, stored, lacks⟩

theorem Running.pop {run : Run σ τ} {e : Nat × Facts} {w : Worklist}
    (r : Running Kind Good rules init (run, e :: w)) : Running Kind Good rules init (run, w) where
  growth := r.growth
  fits := ⟨(List.nodup_cons.1 r.fits.once).2, fun e he => r.fits.stored e (List.mem_cons_of_mem _ he)⟩

/-- A rule that is not served stays covered. -/
theorem Covered.pop {run : Run σ τ} {i : Nat} {new : Facts} {w : Worklist}
    {e : EvaluableRule σ × Nat} (covered : Covered Good (run, (i, new) :: w) e) (ne : e.2 ≠ i) :
    Covered Good (run, w) e := by
  obtain ⟨old, out, by_old⟩ := covered
  refine ⟨old, out, by_old.good, by_old.older, by_old.answers, by_old.stored, ?_⟩
  have same : pending ((i, new) :: w) e.2 = pending w e.2 := pending_of_pop_of_ne ne
  rw [← same]
  exact by_old.lacks

/-- Nobody is served for a number that is no rule's. -/
theorem Covering.drop {run : Run σ τ} {w : Worklist} {i : Nat} {new : Facts} (absent : rules[i]? = none)
    (c : Covering Kind Good limits rules init k (run, (i, new) :: w)) :
    Covering Kind Good limits rules init k (run, w) where
  running := c.running.pop
  covered unlimited ok j rule below member := by
    refine (c.covered unlimited ok j rule below member).pop fun same => ?_
    rw [show j = i from same, absent] at member
    cases member

/-- Serving the rule that waits longest keeps every rule covered. -/
theorem Covering.serve (reliable : FactStore.Reliable Kind)
    (incremental : ∀ rule ∈ rules, rule.Incremental Good) {run : Run σ τ} {w : Worklist} {i : Nat}
    {new : Facts} (c : Covering Kind Good limits rules init k (run, (i, new) :: w))
    (ok : run.failure = none) {rule : EvaluableRule σ} (served : rules[i]? = some rule) (inside : i < k)
    (ctx : Context) :
    Covering Kind Good limits rules init k (step limits rules rule ⟨i, ctx, some new⟩ (run, w)) := by
  have listed : rule ∈ rules := List.mem_of_getElem? served
  have new_stored : new.model ≤ run.facts.model := c.running.fits.stored _ List.mem_cons_self
  obtain ⟨running, answered⟩ := step_spec reliable c.running.pop ok listed (incremental rule listed) limits
    ⟨i, ctx, some new⟩ (by simpa using new_stored)
  refine ⟨running, fun unlimited still j reader below at_j => ?_⟩
  obtain ⟨out, env, env', answer, stepped⟩ := answered still
  by_cases at_i : j = i
  · subst at_i
    cases served.symm.trans at_j
    obtain ⟨old, before, by_old⟩ := c.covered unlimited ok j rule inside served
    -- The older facts lack no more than the tuples that the rule is now called for.
    have lacks_new : ∀ p ∈ rule.reads, run.facts.model p ⊆ old.model p ∪ new.model p := by
      intro p reads t ht
      rw [← (pending_of_pop c.running.fits p).1]
      exact by_old.lacks p reads ht
    obtain ⟨all, answers, complete⟩ := (incremental rule listed).complete_new old run.facts new
      by_old.good c.running.growth.good by_old.older new_stored lacks_new before by_old.answers
      ctx env out env' answer
    refine stepped.covered unlimited served c.running.growth.good answers fun t ht => ?_
    exact (complete t ht).imp (fun before => by_old.stored t before) id
  · exact ((c.covered unlimited ok j reader below at_j).pop at_i).stepped stepped unlimited at_j

/-- When no rule waits, what each answered on lacks nothing that it reads. -/
theorem Covering.saturated (incremental : ∀ rule ∈ rules, rule.Incremental Good) {run : Run σ τ}
    (c : Covering Kind Good limits rules init rules.length (run, []))
    (unlimited : limits.maxEvaluations = 0) (ok : run.failure = none) :
    ∀ rule ∈ rules, run.Saturated rule := by
  intro rule listed
  obtain ⟨i, hi⟩ := List.mem_iff_getElem?.1 listed
  obtain ⟨old, out, by_old⟩ := c.covered unlimited ok i rule (List.getElem?_eq_some_iff.1 hi).1 hi
  refine ⟨out, (incremental rule listed).local_reads old run.facts by_old.good c.running.growth.good
    (fun p reads => le_antisymm (by_old.older p) fun t ht => ?_) out by_old.answers, by_old.stored⟩
  rcases by_old.lacks p reads ht with before | ⟨new, waits, -⟩
  · exact before
  · cases waits

/-- **A dependency-aware run grows, and without a limit ends saturated** or fails. -/
theorem evaluate_spec (reliable : FactStore.Reliable Kind)
    (incremental : ∀ rule ∈ rules, rule.Incremental Good) {fuel stratum : Nat} {store : τ} {env : σ}
    {run : Run σ τ} (g : (Run.start stratum rules.length store env).Growth Kind Good rules init)
    (h : evaluate fuel limits stratum rules store env = some run) :
    run.Growth Kind Good rules init ∧
      (limits.maxEvaluations = 0 → run.failure = none → ∀ rule ∈ rules, run.Saturated rule) := by
  obtain ⟨w, covering, ended⟩ := evaluate_keeps (F := Covering Kind Good limits rules init)
    (L := Covering Kind Good limits rules init rules.length)
    ⟨⟨g, Fits.nil _⟩, fun _ _ i _ below => absurd below (Nat.not_lt_zero i)⟩
    (fun k rule s member c => c.visit reliable incremental member)
    (fun s c => by
      dsimp only
      split
      · exact c
      · exact c.countIteration)
    (fun run i new w absent c => c.drop absent)
    (fun run i new w rule ok served c =>
      c.countIteration.serve reliable incremental ok served (List.getElem?_eq_some_iff.1 served).1 _)
    h
  refine ⟨covering.running.growth, fun unlimited ok => ?_⟩
  rw [ended ok] at covering
  exact covering.saturated incremental unlimited ok

end Dependency

/-- **Either strategy grows the store,** and without a limit ends when no rule returns more, or fails. -/
theorem Strategy.evaluate_spec (reliable : FactStore.Reliable Kind)
    (incremental : ∀ rule ∈ rules, rule.Incremental Good) {strategy : Strategy}
    {fuel stratum : Nat} {store : τ} {env : σ} {run : Run σ τ} (kind : Kind store)
    (good : Good (FactStore.facts store))
    (h : strategy.evaluate fuel limits stratum rules store env = some run) :
    run.Growth Kind Good rules (FactStore.facts store) ∧
      (limits.maxEvaluations = 0 → run.failure = none → ∀ rule ∈ rules, run.Saturated rule) := by
  have start : (Run.start stratum rules.length store env).Growth Kind Good rules
      (FactStore.facts store) := Run.Growth.start kind good stratum rules.length env
  cases strategy with
  | naive => exact Naive.loop_spec reliable incremental start h
  | dependency => exact Dependency.evaluate_spec reliable incremental start h

end Strategies

end Datalog
