import Datalog.Evaluation.Scripted
import Datalog.Proofs.Fixpoint

/-!
# How often rules are called

The report counts the calls of each rule, all but one that failed (`Run.Tallied`). A naive run asks
the limits before every call, so it never exceeds them. A dependency-aware run asks them when a rule
begins to wait, and in the first round a rule can begin to wait before its own first call: then the
two calls follow each other without the limits being asked again. That exceeds a limit of one
evaluation and no other (`Strategy.callsOf_le`).
-/

namespace Datalog

/-- One entry of a list grows by one. -/
theorem Report.evaluationsOf_countEvaluation {r : Report} {i : Nat} (j : Nat)
    (inside : i < r.evaluations.length) :
    (r.countEvaluation i).evaluationsOf j = r.evaluationsOf j + if i = j then 1 else 0 := by
  unfold evaluationsOf countEvaluation
  dsimp only
  rw [List.getElem?_modify]
  by_cases same : i = j
  · subst same
    rw [List.getElem?_eq_getElem inside]
    simp
  · simp [same]

namespace Run

variable {σ τ : Type} [FactStore τ] {run : Run σ τ} {n i : Nat}

/-- The number of calls of a rule. -/
def callsOf (run : Run σ τ) (i : Nat) : Nat := run.calls.countP fun c => c.rule = i

/-- The report counts the calls of `n` rules; only the call that failed may be missing. -/
structure Tallied (n : Nat) (run : Run σ τ) : Prop where
  size : run.report.evaluations.length = n
  counted : run.failure = none → ∀ i, run.report.evaluationsOf i = run.callsOf i
  le_callsOf : ∀ i, run.report.evaluationsOf i ≤ run.callsOf i

/-- A call is listed. -/
theorem callsOf_perform (run : Run σ τ) (rule : EvaluableRule σ) (c : Call) (j : Nat) :
    (run.perform rule c).1.callsOf j = run.callsOf j + if c.rule = j then 1 else 0 := by
  unfold callsOf
  rw [calls_perform, List.countP_append, List.countP_singleton]
  simp

omit [FactStore τ] in
theorem Tallied.start (n stratum : Nat) (store : τ) (env : σ) :
    Tallied n (.start stratum n store env : Run σ τ) := by
  have none_yet (i : Nat) : (Report.start stratum n).evaluationsOf i = 0 := by
    unfold Report.evaluationsOf Report.start
    dsimp only
    rw [List.getElem?_replicate]
    split <;> rfl
  exact ⟨List.length_replicate, fun _ i => none_yet i, fun i => (none_yet i).le⟩

/-- A call of a rule is counted once it is answered. -/
theorem Tallied.perform (tallied : run.Tallied n) (ok : run.failure = none) {rule : EvaluableRule σ}
    {c : Call} (inside : c.rule < n) : (run.perform rule c).1.Tallied n := by
  have calls := callsOf_perform run rule c
  have counts (j : Nat) : (run.report.countEvaluation c.rule).evaluationsOf j =
      run.callsOf j + if c.rule = j then 1 else 0 := by
    rw [Report.evaluationsOf_countEvaluation j (by rw [tallied.size]; exact inside),
      tallied.counted ok]
  have size : (run.report.countEvaluation c.rule).evaluations.length = n := by
    unfold Report.countEvaluation
    rw [List.length_modify]
    exact tallied.size
  unfold Run.perform at calls ⊢
  dsimp only at calls ⊢
  split at calls
  · -- The rule failed: it is not counted.
    refine ⟨tallied.size, nofun, fun j => ?_⟩
    rw [calls j]
    have := tallied.le_callsOf j
    dsimp only
    omega
  · split at calls
    · exact ⟨size, nofun, fun j => by rw [calls j]; exact (counts j).le⟩
    · exact ⟨size, fun _ j => by rw [calls j]; exact counts j, fun j => by rw [calls j]; exact (counts j).le⟩

omit [FactStore τ] in
theorem Tallied.countIteration (tallied : run.Tallied n) :
    Tallied n { run with report := run.report.countIteration } :=
  ⟨tallied.size, tallied.counted, tallied.le_callsOf⟩

end Run

section Limits

variable {σ τ : Type} [FactStore τ] {rules : List (EvaluableRule σ)} {limits : Limits}

/-- A rule that may have another evaluation has had fewer than the limit. -/
theorem Limits.lt_of_allows (limited : 0 < limits.maxEvaluations) {n : Nat}
    (allowed : limits.allows n = true) : n < limits.maxEvaluations := by
  have nonzero : limits.maxEvaluations ≠ 0 := by omega
  simpa [allows, nonzero] using allowed

/-- A call that the limits allow does not exceed them. -/
theorem Run.callsOf_perform_le (limited : 0 < limits.maxEvaluations) {run : Run σ τ} {n i : Nat}
    (tallied : run.Tallied n) (ok : run.failure = none) (allowed : run.allows limits i = true)
    (within : ∀ j, run.callsOf j ≤ limits.maxEvaluations) (rule : EvaluableRule σ) (ctx : Context)
    (new : Option Facts) (j : Nat) :
    (run.perform rule ⟨i, ctx, new⟩).1.callsOf j ≤ limits.maxEvaluations := by
  rw [Run.callsOf_perform]
  by_cases same : i = j
  · subst same
    have below := Limits.lt_of_allows limited allowed
    rw [tallied.counted ok] at below
    rw [if_pos rfl]
    exact below
  · simpa [same] using within j

/-- A naive run stays within the limits. -/
theorem Naive.callsOf_le_limit (limited : 0 < limits.maxEvaluations) {fuel stratum : Nat} {store : τ}
    {env : σ} {run : Run σ τ} (h : evaluate fuel limits stratum rules store env = some run) :
    run.Tallied rules.length ∧ ∀ i, run.callsOf i ≤ limits.maxEvaluations := by
  refine evaluate_keeps (P := fun run => run.Tallied rules.length ∧
    ∀ i, run.callsOf i ≤ limits.maxEvaluations) ⟨.start _ _ _ _, fun i => Nat.zero_le _⟩ ?_ ?_ h
  · intro run rule i ctx ok member allowed kept
    exact ⟨kept.1.perform ok (List.getElem?_eq_some_iff.1 member).1,
      Run.callsOf_perform_le limited kept.1 ok allowed kept.2 rule ctx none⟩
  · intro run kept
    exact ⟨kept.1.countIteration, kept.2⟩

namespace Dependency

/-- A rule reads the head of a rule before it. -/
def ReadsEarlier (rules : List (EvaluableRule σ)) (i : Nat) : Prop :=
  ∃ rule earlier j, j < i ∧ rules[i]? = some rule ∧ rules[j]? = some earlier ∧
    earlier.head ∈ rule.reads

variable {w : Worklist}

omit [FactStore τ] in
/-- Who waits after new tuples are scheduled waited before, or reads them and is within the limits;
nobody waits twice. -/
theorem scheduleReaders_waiting (limits : Limits) (rules : List (EvaluableRule σ)) (run : Run σ τ)
    (head : Predicate) (added : Relation) (once : (w.map Prod.fst).Nodup) :
    ((scheduleReaders limits rules run head added w).map Prod.fst).Nodup ∧
      ∀ i ∈ (scheduleReaders limits rules run head added w).map Prod.fst, i ∈ w.map Prod.fst ∨
        run.allows limits i = true ∧ ∃ rule, rules[i]? = some rule ∧ head ∈ rule.reads := by
  have scheduled (es : List (EvaluableRule σ × Nat)) (members : ∀ e ∈ es, rules[e.2]? = some e.1)
      (w : Worklist) (once : (w.map Prod.fst).Nodup) (w' : Worklist)
      (h : w' = es.foldl (fun w e => if e.1.reads.contains head && run.allows limits e.2
        then w.schedule e.2 head added else w) w) :
      (w'.map Prod.fst).Nodup ∧ ∀ i ∈ w'.map Prod.fst, i ∈ w.map Prod.fst ∨
        run.allows limits i = true ∧ ∃ rule, rules[i]? = some rule ∧ head ∈ rule.reads := by
    induction es generalizing w with
    | nil => exact h ▸ ⟨once, fun i hi => .inl hi⟩
    | cons e es ih =>
      obtain ⟨rule, k⟩ := e
      have member : rules[k]? = some rule := members (rule, k) List.mem_cons_self
      have others : ∀ e ∈ es, rules[e.2]? = some e.1 := fun e he => members e (List.mem_cons_of_mem _ he)
      rw [List.foldl_cons] at h
      by_cases reader : (rule.reads.contains head && run.allows limits k) = true
      · simp only [reader, if_true] at h
        obtain ⟨once', waits⟩ := ih others _ (Worklist.nodup_schedule once) h
        refine ⟨once', fun i hi => ?_⟩
        rcases waits i hi with before | reads
        · rw [Worklist.map_fst_schedule] at before
          split at before
          · exact .inl before
          · rcases List.mem_append.1 before with before | new
            · exact .inl before
            · obtain rfl := List.mem_singleton.1 new
              rw [Bool.and_eq_true, List.contains_iff_mem] at reader
              exact .inr ⟨reader.2, rule, member, reader.1⟩
        · exact .inr reads
      · simp only [reader] at h
        exact ih others _ once h
  unfold scheduleReaders
  split
  · exact ⟨once, fun i hi => .inl hi⟩
  · exact scheduled _ (fun e he => List.mem_zipIdx_iff_getElem?.1 he) w once _ rfl

/-- The first round before rule number `k`: the rules before it were called once. Who waits may be
called twice, or reads a rule before it. -/
structure Seeding (limits : Limits) (rules : List (EvaluableRule σ)) (k : Nat)
    (s : Run σ τ × Worklist) : Prop where
  tallied : s.1.Tallied rules.length
  le_once : ∀ i, s.1.callsOf i ≤ if i < k then 1 else 0
  visited : s.1.failure = none → ∀ i, s.1.callsOf i = if i < k then 1 else 0
  once : (s.2.map Prod.fst).Nodup
  waiting : ∀ i ∈ s.2.map Prod.fst, 2 ≤ limits.maxEvaluations ∨ ReadsEarlier rules i

/-- After the first round: a rule that waits is within the limits, or has been called once, under a
limit of one, and reads a rule before it. -/
structure Serving (limits : Limits) (rules : List (EvaluableRule σ)) (s : Run σ τ × Worklist) :
    Prop where
  tallied : s.1.Tallied rules.length
  bounded : ∀ i, s.1.callsOf i ≤ limits.maxEvaluations ∨
    limits.maxEvaluations = 1 ∧ s.1.callsOf i = 2 ∧ ReadsEarlier rules i
  once : (s.2.map Prod.fst).Nodup
  waiting : s.1.failure = none → ∀ i ∈ s.2.map Prod.fst, s.1.callsOf i < limits.maxEvaluations ∨
    limits.maxEvaluations = 1 ∧ s.1.callsOf i = 1 ∧ ReadsEarlier rules i

variable {s : Run σ τ × Worklist} {k : Nat}

omit [FactStore τ] in
theorem Seeding.start (limits : Limits) (stratum : Nat) (store : τ) (env : σ) :
    Seeding limits rules 0 (.start stratum rules.length store env, []) where
  tallied := .start _ _ _ _
  le_once _ := Nat.zero_le _
  visited _ _ := rfl
  once := List.nodup_nil
  waiting := by simp

/-- A visit calls the rule: no rule comes to its first call with an evaluation. -/
theorem Seeding.visit (limited : 0 < limits.maxEvaluations) (seeding : Seeding limits rules k s)
    {rule : EvaluableRule σ} (member : rules[k]? = some rule) :
    Seeding limits rules (k + 1) (visit limits rules s (rule, k)) := by
  have inside : k < rules.length := (List.getElem?_eq_some_iff.1 member).1
  unfold Dependency.visit
  dsimp only
  split
  · next stops =>
    have failed : s.1.failure ≠ none := by
      intro ok
      have fresh : s.1.report.evaluationsOf k = 0 := by
        rw [seeding.tallied.counted ok, seeding.visited ok, if_neg (Nat.lt_irrefl k)]
      have allowed : s.1.allows limits k = true := by
        unfold Run.allows Limits.allows
        rw [fresh]
        simp [limited]
      simp [ok, allowed] at stops
    refine ⟨seeding.tallied, fun i => ?_, fun ok => absurd ok failed, seeding.once, seeding.waiting⟩
    have := seeding.le_once i
    split at this <;> split <;> omega
  · next goes =>
    obtain ⟨ok, -⟩ := Run.goes_on goes
    let c : Call := ⟨k, ⟨s.1.report.stratum, 0, k⟩, none⟩
    have calls (i : Nat) : (s.1.perform rule c).1.callsOf i = if i < k + 1 then 1 else 0 := by
      rw [Run.callsOf_perform, seeding.visited ok]
      show (if i < k then 1 else 0) + (if k = i then 1 else 0) = if i < k + 1 then 1 else 0
      split <;> split <;> split <;> omega
    have tallied : (s.1.perform rule c).1.Tallied rules.length := seeding.tallied.perform ok inside
    cases answered : (s.1.perform rule c).1.failure with
    | some e =>
      rw [step_of_error answered]
      exact ⟨tallied, fun i => (calls i).le, fun _ => calls, seeding.once, seeding.waiting⟩
    | none =>
      rw [step_of_ok answered]
      obtain ⟨once, waits⟩ := scheduleReaders_waiting limits rules (s.1.perform rule c).1 rule.head
        (s.1.perform rule c).2 seeding.once
      refine ⟨tallied, fun i => (calls i).le, fun _ => calls, once, fun i hi => ?_⟩
      rcases waits i hi with before | ⟨allowed, reader, at_i, reads⟩
      · exact seeding.waiting i before
      · by_cases later : k < i
        · exact .inr ⟨reader, rule, k, later, at_i, member, reads⟩
        · have below := Limits.lt_of_allows limited allowed
          rw [tallied.counted answered, calls, if_pos (by omega)] at below
          exact .inl below

omit [FactStore τ] in
/-- After the first round every rule was called once. -/
theorem Seeding.serving (limited : 0 < limits.maxEvaluations)
    (seeding : Seeding limits rules rules.length s) : Serving limits rules s where
  tallied := seeding.tallied
  bounded i := by
    have := seeding.le_once i
    left
    split at this <;> omega
  once := seeding.once
  waiting ok i hi := by
    have calls := seeding.visited ok i
    rcases seeding.waiting i hi with more | earlier
    · left
      split at calls <;> omega
    · obtain ⟨rule, -, -, -, at_i, -⟩ := id earlier
      rw [if_pos (List.getElem?_eq_some_iff.1 at_i).1] at calls
      by_cases one : limits.maxEvaluations = 1
      · exact .inr ⟨one, calls, earlier⟩
      · left
        omega

omit [FactStore τ] in
theorem Serving.countIteration {run : Run σ τ} (serving : Serving limits rules (run, w)) :
    Serving limits rules ({ run with report := run.report.countIteration }, w) :=
  ⟨serving.tallied.countIteration, serving.bounded, serving.once, serving.waiting⟩

/-- Serving a rule calls it once more, and only rules within the limits come to wait. -/
theorem Serving.step (limited : 0 < limits.maxEvaluations) {run : Run σ τ} {i : Nat} {new : Facts}
    (serving : Serving limits rules (run, (i, new) :: w)) (ok : run.failure = none)
    {rule : EvaluableRule σ} (member : rules[i]? = some rule) (ctx : Context) :
    Serving limits rules (step limits rules rule ⟨i, ctx, some new⟩ (run, w)) := by
  have inside : i < rules.length := (List.getElem?_eq_some_iff.1 member).1
  let c : Call := ⟨i, ctx, some new⟩
  have calls (j : Nat) : (run.perform rule c).1.callsOf j = run.callsOf j + if i = j then 1 else 0 :=
    Run.callsOf_perform run rule c j
  have tallied : (run.perform rule c).1.Tallied rules.length := serving.tallied.perform ok inside
  have served := serving.waiting ok i (List.mem_cons_self)
  have bounded (j : Nat) : (run.perform rule c).1.callsOf j ≤ limits.maxEvaluations ∨
      limits.maxEvaluations = 1 ∧ (run.perform rule c).1.callsOf j = 2 ∧ ReadsEarlier rules j := by
    rw [calls j]
    by_cases same : i = j
    · subst same
      rw [if_pos rfl]
      rcases served with below | ⟨one, called, earlier⟩
      · exact .inl below
      · exact .inr ⟨one, by rw [called], earlier⟩
    · rw [if_neg same, Nat.add_zero]
      exact serving.bounded j
  obtain ⟨alone, rest_once⟩ := List.nodup_cons.1 serving.once
  cases answered : (run.perform rule c).1.failure with
  | some e =>
    rw [step_of_error answered]
    exact ⟨tallied, bounded, rest_once, fun ok => absurd (answered.symm.trans ok) (by simp)⟩
  | none =>
    rw [step_of_ok answered]
    obtain ⟨once, waits⟩ := scheduleReaders_waiting limits rules (run.perform rule c).1 rule.head
      (run.perform rule c).2 rest_once
    refine ⟨tallied, bounded, once, fun _ j hj => ?_⟩
    rcases waits j hj with before | ⟨allowed, -⟩
    · have other : i ≠ j := fun same => alone (same ▸ before)
      rw [calls j, if_neg other, Nat.add_zero]
      exact serving.waiting ok j (List.mem_cons_of_mem _ before)
    · have below := Limits.lt_of_allows limited allowed
      rw [tallied.counted answered] at below
      exact .inl below

/-- A dependency-aware run exceeds no limit but one, and that once. -/
theorem callsOf_le_limit (limited : 0 < limits.maxEvaluations) {fuel stratum : Nat} {store : τ}
    {env : σ} {run : Run σ τ} (h : evaluate fuel limits stratum rules store env = some run) :
    run.Tallied rules.length ∧ ∀ i, run.callsOf i ≤ limits.maxEvaluations ∨
      limits.maxEvaluations = 1 ∧ run.callsOf i = 2 ∧ ReadsEarlier rules i := by
  obtain ⟨w, serving, -⟩ := evaluate_keeps (F := Seeding limits rules) (L := Serving limits rules)
    (Seeding.start limits stratum store env)
    (fun k rule s member seeding => seeding.visit limited member)
    (fun s seeding => by
      split
      · exact seeding.serving limited
      · exact (seeding.serving limited).countIteration)
    (fun run i new w _ serving => ⟨serving.tallied, serving.bounded,
      (List.nodup_cons.1 serving.once).2,
      fun ok j hj => serving.waiting ok j (List.mem_cons_of_mem _ hj)⟩)
    (fun run i new w rule ok member serving => serving.countIteration.step limited ok member _)
    h
  exact ⟨serving.tallied, serving.bounded⟩

end Dependency

/-- **How far limits hold.** Under a limit on evaluations, no rule is called more often than the limit
says, with one exception: under a limit of one, a dependency-aware run may call a rule twice if it
reads the head of a rule before it. The report counts no evaluation that was not a call. -/
theorem Strategy.callsOf_le {strategy : Strategy} (limited : 0 < limits.maxEvaluations)
    {fuel stratum : Nat} {store : τ} {env : σ} {run : Run σ τ}
    (h : strategy.evaluate fuel limits stratum rules store env = some run) (i : Nat) :
    run.report.evaluations.length = rules.length ∧ run.report.evaluationsOf i ≤ run.callsOf i ∧
      (run.callsOf i ≤ limits.maxEvaluations ∨
        strategy = .dependency ∧ limits.maxEvaluations = 1 ∧ run.callsOf i = 2 ∧
          Dependency.ReadsEarlier rules i) := by
  cases strategy with
  | naive =>
    obtain ⟨tallied, bounded⟩ := Naive.callsOf_le_limit limited h
    exact ⟨tallied.size, tallied.le_callsOf i, .inl (bounded i)⟩
  | dependency =>
    obtain ⟨tallied, bounded⟩ := Dependency.callsOf_le_limit limited h
    exact ⟨tallied.size, tallied.le_callsOf i, (bounded i).imp id fun twice => ⟨rfl, twice⟩⟩

end Limits

/-- A rule that derives a tuple, and one that reads it. -/
def relay : List Script := [⟨"a", [], 2, none, false⟩, ⟨"b", ["a"], 2, none, false⟩]

/-- The second rule waits before its own first call, and is called twice under a limit of one. -/
theorem called_twice_of_relay :
    0 < (Limits.mk 1).maxEvaluations ∧
    ∃ run, Strategy.dependency.evaluate 1 ⟨1⟩ 0 (Script.rules relay) (∅ : Facts) [0, 0] = some run ∧
      run.failure = none ∧ run.report.evaluations = [1, 2] ∧ run.callsOf 1 = 2 ∧
      Dependency.ReadsEarlier (Script.rules relay) 1 := by
  have evaluated : (Strategy.dependency.evaluate 1 ⟨1⟩ 0 (Script.rules relay) (∅ : Facts) [0, 0]).map
      (fun run => (run.failure, run.report.evaluations, run.callsOf 1)) = some (none, [1, 2], 2) := by
    decide +kernel
  obtain ⟨run, h, answered⟩ := Option.map_eq_some_iff.1 evaluated
  simp only [Prod.mk.injEq] at answered
  obtain ⟨ok, counted, called⟩ := answered
  obtain ⟨-, -, within | ⟨-, -, -, earlier⟩⟩ := Strategy.callsOf_le (by decide) h 1
  · rw [called] at within
    exact absurd within (by decide)
  · exact ⟨by decide, run, h, ok, counted, called, earlier⟩

end Datalog
