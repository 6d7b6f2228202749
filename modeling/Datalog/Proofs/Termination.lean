import Mathlib.Algebra.Group.Action.Defs
import Mathlib.Algebra.Order.BigOperators.Group.Finset
import Mathlib.Logic.Relation
import Datalog.Proofs.Reports

/-!
# Runs end

A run of either strategy over facts in memory ends, with a report or with the failure of a rule, if the
number of evaluations is limited or all that the rules return lies in a finite set
(`Strategy.evaluate_terminates`). Every turn of a loop makes a call, so it is enough to bound the calls
of the runs that the loop reaches. A limit bounds the calls of every rule. Without one, the tuples that
are still missing bound the rounds that add something; and as no rule waits twice, every new tuple makes
at most as many calls as there are rules.
-/

namespace Datalog

/-! ### Turns -/

section Turns

variable {σ τ : Type} [FactStore τ] {rules : List (EvaluableRule σ)} {limits : Limits} {stratum : Nat}
  {store : τ} {env : σ}

/-- A round after which the run goes on. -/
def Naive.Turn (limits : Limits) (rules : List (EvaluableRule σ)) (run run' : Run σ τ) : Prop :=
  finished limits rules (round limits rules run) = false ∧ run' = (round limits rules run).run

/-- The rule that waits longest is called. -/
inductive Dependency.Turn (limits : Limits) (rules : List (EvaluableRule σ)) :
    Run σ τ × Worklist → Run σ τ × Worklist → Prop where
  | serve {run : Run σ τ} {i : Nat} {new : Facts} {w : Worklist} {rule : EvaluableRule σ}
      (ok : run.failure = none) (member : rules[i]? = some rule) :
      Turn limits rules (run, (i, new) :: w) (step limits rules rule
        ⟨i, ⟨run.report.stratum, run.report.iterations, i⟩, some new⟩
        ({ run with report := run.report.countIteration }, w))

/-- The runs between the turns of an evaluation. -/
def Strategy.Reaches (strategy : Strategy) (limits : Limits) (stratum : Nat)
    (rules : List (EvaluableRule σ)) (store : τ) (env : σ) (run : Run σ τ) : Prop :=
  match strategy with
  | .naive =>
    Relation.ReflTransGen (Naive.Turn limits rules) (.start stratum rules.length store env) run
  | .dependency => ∃ w, Relation.ReflTransGen (Dependency.Turn limits rules)
      (Dependency.seed limits rules (.start stratum rules.length store env)) (run, w)

/-- What every call keeps holds of the runs between the turns. -/
theorem Strategy.Reaches.keeps {P : Run σ τ → Prop} {strategy : Strategy} {run : Run σ τ}
    (h : strategy.Reaches limits stratum rules store env run)
    (start : P (.start stratum rules.length store env))
    (call : ∀ run rule c, run.failure = none → rules[c.rule]? = some rule → P run →
      P (run.perform rule c).1)
    (count : ∀ run, P run → P { run with report := run.report.countIteration }) : P run := by
  cases strategy with
  | naive =>
    induction h with
    | refl => exact start
    | tail _ turn ih =>
      obtain ⟨-, rfl⟩ := turn
      exact Naive.round_keeps (fun run rule i ctx ok member _ => call run rule _ ok member) count ih
  | dependency =>
    obtain ⟨w, h⟩ := h
    have seeded : P (Dependency.seed limits rules (.start stratum rules.length store env)).1 := by
      refine Dependency.seed_keeps (F := fun _ s => P s.1) (L := fun s => P s.1) start
        (fun _ _ _ member kept => Dependency.visit_keeps member call kept) fun s kept => ?_
      dsimp only
      split
      · exact kept
      · exact count _ kept
    have kept (s : Run σ τ × Dependency.Worklist) (h : Relation.ReflTransGen
        (Dependency.Turn limits rules)
        (Dependency.seed limits rules (.start stratum rules.length store env)) s) : P s.1 := by
      induction h with
      | refl => exact seeded
      | tail _ turn ih =>
        cases turn with
        | serve ok member =>
          rw [Dependency.step_fst]
          exact call _ _ _ ok member (count _ ih)
    exact kept _ h

end Turns

/-! ### Calls -/

section Calls

variable {σ τ : Type} {n b : Nat}

/-- Rules that are called at most `b` times each are called at most `b` times as often as there are
rules. -/
theorem Run.length_calls_le {run : Run σ τ} (inside : ∀ c ∈ run.calls, c.rule < n)
    (le : ∀ i, run.callsOf i ≤ b) : run.calls.length ≤ n * b := by
  have by_rule (cs : List Call) (inside : ∀ c ∈ cs, c.rule < n) :
      cs.length = ∑ i ∈ Finset.range n, cs.countP fun c => c.rule = i := by
    induction cs with
    | nil => simp
    | cons c cs ih =>
      obtain ⟨first, others⟩ := List.forall_mem_cons.1 inside
      simp only [List.countP_cons, Finset.sum_add_distrib, ← ih others, List.length_cons,
        decide_eq_true_eq, Finset.sum_ite_eq, Finset.mem_range, first, if_true]
  calc run.calls.length = ∑ i ∈ Finset.range n, run.callsOf i := by_rule run.calls inside
    _ ≤ (Finset.range n).card • b := Finset.sum_le_card_nsmul _ _ _ fun i _ => le i
    _ = n * b := by rw [Finset.card_range, smul_eq_mul]

variable [FactStore τ] {rules : List (EvaluableRule σ)}

/-- A call is a call of one of the rules. -/
theorem Run.inside_perform {run : Run σ τ} {rule : EvaluableRule σ} {c : Call}
    (member : rules[c.rule]? = some rule) (inside : ∀ c ∈ run.calls, c.rule < rules.length) :
    ∀ c' ∈ (run.perform rule c).1.calls, c'.rule < rules.length := by
  intro c' hc'
  rw [Run.calls_perform] at hc'
  rcases List.mem_append.1 hc' with before | last
  · exact inside c' before
  · obtain rfl := List.mem_singleton.1 last
    exact (List.getElem?_eq_some_iff.1 member).1

/-- The report counts what a call adds. -/
theorem Run.newFacts_perform (run : Run σ τ) (rule : EvaluableRule σ) (c : Call) :
    (run.perform rule c).1.report.newFacts =
      run.report.newFacts + (run.perform rule c).2.size := by
  unfold perform
  dsimp only
  split
  · rfl
  · split <;> rfl

end Calls

/-! ### Tuples -/

/-- Tuples of a finite set are no more than the set has. -/
theorem SortedSet.size_le_card {r : Relation} {F : Finset Tuple} (sub : ∀ t ∈ r, t ∈ F) :
    r.size ≤ F.card := by
  rw [size, ← List.toFinset_card_of_nodup (nodup_toList r)]
  exact Finset.card_le_card fun t ht => sub t (List.mem_toFinset.1 ht)

/-- Where all that is new lies in a finite set, each head can get as many tuples as the set has. -/
theorem Run.Explained.newFacts_le {σ : Type} {rules : List (EvaluableRule σ)} {init : Facts}
    {run : Run σ Facts} (explained : run.Explained rules init) {F : Finset Tuple}
    (confined : ∀ p, ∀ t ∈ run.store.scan p, t ∈ init.scan p ∨ t ∈ F) :
    run.report.newFacts ≤ (rules.map EvaluableRule.head).toFinset.card * F.card := by
  rw [explained.newFacts, ← smul_eq_mul]
  refine Finset.sum_le_card_nsmul _ _ _ fun p _ => SortedSet.size_le_card fun t ht => ?_
  rw [Facts.scan_since, SortedSet.mem_diff] at ht
  exact (confined p t ht.1).resolve_left ht.2

/-! ### Rounds -/

namespace Naive

variable {σ τ : Type} [FactStore τ] {rules : List (EvaluableRule σ)} {limits : Limits}
  {run run' : Run σ τ} {B : Nat}

/-- What at most `k` calls of a round bring to a run. -/
structure Grown (before : Run σ τ) (k : Nat) (s : Round σ τ) : Prop where
  calls : s.run.calls.length ≤ before.calls.length + k
  newFacts : s.run.report.newFacts = before.report.newFacts + s.added
  called : s.added ≠ 0 → before.calls.length < s.run.calls.length
  mono : before.calls.length ≤ s.run.calls.length

/-- A round calls no rule twice, and only calls add tuples. -/
theorem grown_round (limits : Limits) (rules : List (EvaluableRule σ)) (run : Run σ τ) :
    Grown run rules.length (round limits rules run) := by
  have start : Grown run 0 { run } := ⟨le_rfl, rfl, fun added => absurd rfl added, le_rfl⟩
  have visits (k : Nat) (rule : EvaluableRule σ) (s : Round σ τ) (_ : rules[k]? = some rule)
      (grown : Grown run k s) :
      Grown run (k + 1) (visit limits run.report.iterations s (rule, k)) := by
    unfold visit
    dsimp only
    split
    · exact ⟨grown.calls.trans (Nat.le_succ _), grown.newFacts, grown.called, grown.mono⟩
    · have calls := congrArg List.length (Run.calls_perform s.run rule
        ⟨k, ⟨s.run.report.stratum, run.report.iterations, k⟩, none⟩)
      rw [List.length_append, List.length_singleton] at calls
      have newFacts := Run.newFacts_perform s.run rule
        ⟨k, ⟨s.run.report.stratum, run.report.iterations, k⟩, none⟩
      have := grown.calls
      have := grown.mono
      have := grown.newFacts
      constructor <;> dsimp only <;> omega
  have grown := foldl_zipIdx_keeps visits start
  unfold round
  dsimp only
  split
  · exact grown
  · exact ⟨grown.calls, grown.newFacts, grown.called, grown.mono⟩

/-- A run goes on only after a round that added something. -/
theorem added_of_turn (turn : Turn limits rules run run') : (round limits rules run).added ≠ 0 := by
  intro nothing
  obtain ⟨goes, -⟩ := turn
  simp [finished, nothing] at goes

/-- **Rounds end.** If the calls of the runs that the loop reaches are bounded, it ends after a round. -/
theorem loop_ends {Inv : Run σ τ → Prop}
    (kept : ∀ run run', Inv run → Turn limits rules run run' → Inv run')
    (bounded : ∀ run, Inv run → run.calls.length ≤ B) (inv : Inv run) :
    ∃ last, last.calls.length ≤ B + rules.length ∧
      ∀ fuel, B < fuel + run.calls.length → loop limits rules fuel run = some last := by
  induction room : B - run.calls.length using Nat.strong_induction_on generalizing run with
  | _ room' ih =>
    have bound := bounded run inv
    have grown := grown_round limits rules run
    cases ended : finished limits rules (round limits rules run) with
    | true =>
      refine ⟨(round limits rules run).run, grown.calls.trans (by omega), fun fuel enough => ?_⟩
      obtain ⟨fuel, rfl⟩ := Nat.exists_eq_succ_of_ne_zero (show fuel ≠ 0 by omega)
      rw [loop, if_pos ended]
    | false =>
      have turn : Turn limits rules run (round limits rules run).run := ⟨ended, rfl⟩
      have inv' := kept run _ inv turn
      have bound' := bounded _ inv'
      have more := grown.called (added_of_turn turn)
      obtain ⟨last, calls, ends⟩ := ih _ (by omega) inv' rfl
      refine ⟨last, calls, fun fuel enough => ?_⟩
      obtain ⟨fuel, rfl⟩ := Nat.exists_eq_succ_of_ne_zero (show fuel ≠ 0 by omega)
      rw [loop, if_neg (by rw [ended]; exact Bool.false_ne_true)]
      exact ends fuel (by omega)

/-- Limits bound the calls of a naive run. -/
theorem ends_of_limited (limited : 0 < limits.maxEvaluations) (stratum : Nat) (store : τ) (env : σ) :
    ∃ run, run.calls.length ≤ rules.length * (limits.maxEvaluations + 1) ∧
      ∀ fuel, rules.length * (limits.maxEvaluations + 1) < fuel →
        evaluate fuel limits stratum rules store env = some run := by
  let Within (run : Run σ τ) : Prop := run.Tallied rules.length ∧
    (∀ i, run.callsOf i ≤ limits.maxEvaluations) ∧ ∀ c ∈ run.calls, c.rule < rules.length
  have start : Within (.start stratum rules.length store env) :=
    ⟨.start _ _ _ _, fun _ => Nat.zero_le _, fun c hc => absurd hc List.not_mem_nil⟩
  have kept (run run' : Run σ τ) (within : Within run) (turn : Turn limits rules run run') :
      Within run' := by
    obtain ⟨-, rfl⟩ := turn
    refine round_keeps (P := Within) ?_ (fun run within => ⟨within.1.countIteration, within.2⟩) within
    intro run rule i ctx ok member allowed ⟨tallied, below, inside⟩
    exact ⟨tallied.perform ok (List.getElem?_eq_some_iff.1 member).1,
      Run.callsOf_perform_le limited tallied ok allowed below rule ctx none,
      Run.inside_perform member inside⟩
  obtain ⟨last, calls, ends⟩ := loop_ends kept
    (fun run within => Run.length_calls_le within.2.2 within.2.1) start
  refine ⟨last, calls, fun fuel enough => ends fuel ?_⟩
  rw [Nat.mul_succ] at enough
  omega

/-- Where new tuples are bounded, so are the rounds that add some. -/
theorem ends_of_confined {K stratum : Nat} {store : τ} {env : σ}
    (confined : ∀ run, Strategy.naive.Reaches limits stratum rules store env run →
      run.report.newFacts ≤ K) :
    ∃ run, run.calls.length ≤ rules.length * (K + 1) ∧
      ∀ fuel, rules.length * (K + 1) < fuel →
        evaluate fuel limits stratum rules store env = some run := by
  let Within (run : Run σ τ) : Prop := Strategy.naive.Reaches limits stratum rules store env run ∧
    run.calls.length ≤ rules.length * run.report.newFacts
  have kept (run run' : Run σ τ) (within : Within run) (turn : Turn limits rules run run') :
      Within run' := by
    refine ⟨within.1.tail turn, ?_⟩
    have grown := grown_round limits rules run
    have added := added_of_turn turn
    obtain ⟨-, rfl⟩ := turn
    calc (round limits rules run).run.calls.length
        ≤ run.calls.length + rules.length := grown.calls
      _ ≤ rules.length * (run.report.newFacts + 1) := Nat.add_le_add_right within.2 _
      _ ≤ rules.length * (round limits rules run).run.report.newFacts := by
        refine Nat.mul_le_mul_left _ ?_
        rw [grown.newFacts]
        omega
  have bounded (run : Run σ τ) (within : Within run) : run.calls.length ≤ rules.length * K :=
    within.2.trans (Nat.mul_le_mul_left _ (confined run within.1))
  have start : Within (.start stratum rules.length store env) := ⟨.refl, Nat.zero_le _⟩
  obtain ⟨last, calls, ends⟩ := loop_ends kept bounded start
  refine ⟨last, calls, fun fuel enough => ends fuel ?_⟩
  rw [Nat.mul_succ] at enough
  omega

end Naive

/-! ### The rules that wait -/

namespace Dependency

variable {σ τ : Type} [FactStore τ] {rules : List (EvaluableRule σ)} {limits : Limits} {n : Nat}

/-- Only rules wait, and each at most once. -/
structure Worklist.Within (w : Worklist) (n : Nat) : Prop where
  once : (w.map Prod.fst).Nodup
  inside : ∀ i ∈ w.map Prod.fst, i < n

theorem Worklist.Within.nil (n : Nat) : Within [] n := ⟨List.nodup_nil, by simp⟩

theorem Worklist.Within.tail {e : Nat × Facts} {w : Worklist} (within : Within (e :: w) n) :
    w.Within n :=
  ⟨(List.nodup_cons.1 within.once).2, fun i hi => within.inside i (List.mem_cons_of_mem _ hi)⟩

/-- No more rules wait than there are. -/
theorem Worklist.Within.length_le {w : Worklist} (within : w.Within n) : w.length ≤ n := by
  have listed : (w.map Prod.fst).toFinset ⊆ Finset.range n := fun i hi =>
    Finset.mem_range.2 (within.inside i (List.mem_toFinset.1 hi))
  have card := Finset.card_le_card listed
  rw [List.toFinset_card_of_nodup within.once, List.length_map, Finset.card_range] at card
  exact card

variable {s s' : Run σ τ × Worklist}

/-- A step makes only rules wait; it makes none wait unless it adds a tuple. -/
theorem within_step (limits : Limits) (s : Run σ τ × Worklist) (within : s.2.Within rules.length)
    (rule : EvaluableRule σ) (c : Call) :
    (step limits rules rule c s).2.Within rules.length ∧
      (step limits rules rule c s).2.length ≤
        s.2.length + rules.length * (s.1.perform rule c).2.size := by
  cases answered : (s.1.perform rule c).1.failure with
  | some e =>
    rw [step_of_error answered]
    exact ⟨within, Nat.le_add_right _ _⟩
  | none =>
    rw [step_of_ok answered]
    obtain ⟨once, waits⟩ := scheduleReaders_waiting limits rules (s.1.perform rule c).1 rule.head
      (s.1.perform rule c).2 within.once
    have after : (scheduleReaders limits rules (s.1.perform rule c).1 rule.head
        (s.1.perform rule c).2 s.2).Within rules.length := by
      refine ⟨once, fun i hi => ?_⟩
      rcases waits i hi with before | ⟨-, reader, member, -⟩
      · exact within.inside i before
      · exact (List.getElem?_eq_some_iff.1 member).1
    refine ⟨after, ?_⟩
    cases empty : (s.1.perform rule c).2.isEmpty with
    | true =>
      rw [scheduleReaders, if_pos empty]
      exact Nat.le_add_right _ _
    | false =>
      have added : 0 < (s.1.perform rule c).2.size := by
        obtain ⟨t, ht⟩ := SortedSet.isEmpty_eq_false_iff.1 empty
        exact List.length_pos_of_mem ht
      exact after.length_le.trans
        ((Nat.le_mul_of_pos_right _ added).trans (Nat.le_add_left _ _))

/-- A step is one call. -/
theorem length_calls_step (limits : Limits) (rules : List (EvaluableRule σ)) (rule : EvaluableRule σ)
    (c : Call) (s : Run σ τ × Worklist) : (step limits rules rule c s).1.calls.length =
      s.1.calls.length + 1 := by
  rw [step_fst, Run.calls_perform, List.length_append, List.length_singleton]

theorem newFacts_step (limits : Limits) (rules : List (EvaluableRule σ)) (rule : EvaluableRule σ)
    (c : Call) (s : Run σ τ × Worklist) : (step limits rules rule c s).1.report.newFacts =
      s.1.report.newFacts + (s.1.perform rule c).2.size := by
  rw [step_fst, Run.newFacts_perform]

/-- **Serving rules ends.** If the calls of the runs that the loop reaches are bounded, it ends. -/
theorem loop_ends {Inv : Run σ τ × Worklist → Prop} {B : Nat}
    (kept : ∀ s s', Inv s → Turn limits rules s s' → Inv s')
    (within : ∀ s, Inv s → s.2.Within rules.length)
    (bounded : ∀ s, Inv s → s.1.calls.length ≤ B) (inv : Inv s) :
    ∃ last, last.calls.length ≤ B ∧
      ∀ fuel, B < fuel + s.1.calls.length → loop limits rules fuel s = some last := by
  induction room : B - s.1.calls.length using Nat.strong_induction_on generalizing s with
  | _ room' ih =>
    have bound := bounded s inv
    obtain ⟨run, w⟩ := s
    by_cases ok : run.failure = none
    · cases w with
      | nil => exact ⟨run, bound, fun fuel _ => loop_nil ok fuel⟩
      | cons e w =>
        obtain ⟨i, new⟩ := e
        have inside : i < rules.length := (within _ inv).inside i List.mem_cons_self
        have member : rules[i]? = some rules[i] := List.getElem?_eq_getElem inside
        have inv' := kept _ _ inv (.serve ok member)
        have bound' := bounded _ inv'
        have more := length_calls_step limits rules rules[i]
          ⟨i, ⟨run.report.stratum, run.report.iterations, i⟩, some new⟩
          ({ run with report := run.report.countIteration }, w)
        dsimp only at more bound
        obtain ⟨last, calls, ends⟩ := ih _ (by dsimp only at room; omega) inv' rfl
        refine ⟨last, calls, fun fuel enough => ?_⟩
        dsimp only at enough
        obtain ⟨fuel, rfl⟩ := Nat.exists_eq_succ_of_ne_zero (show fuel ≠ 0 by omega)
        rw [loop_succ ok, member]
        exact ends fuel (by omega)
    · refine ⟨run, bound, fun fuel _ => ?_⟩
      rw [loop.eq_def]
      exact if_pos (Option.isSome_iff_ne_none.2 ok)

/-! #### Limited evaluations -/

/-- Between the turns of an evaluation with a limit. -/
structure Limited (limits : Limits) (rules : List (EvaluableRule σ)) (s : Run σ τ × Worklist) :
    Prop where
  serving : Serving limits rules s
  within : s.2.Within rules.length
  inside : ∀ c ∈ s.1.calls, c.rule < rules.length

theorem limited_seed (limited : 0 < limits.maxEvaluations) (stratum : Nat) (store : τ) (env : σ) :
    Limited limits rules (seed limits rules (.start stratum rules.length store env)) := by
  let First (k : Nat) (s : Run σ τ × Worklist) : Prop := Seeding limits rules k s ∧
    s.2.Within rules.length ∧ ∀ c ∈ s.1.calls, c.rule < rules.length
  refine seed_keeps (F := First) (L := Limited limits rules)
    ⟨.start limits stratum store env, .nil _, fun c hc => absurd hc List.not_mem_nil⟩ ?_ ?_
  · intro k rule s member ⟨seeding, within, inside⟩
    refine ⟨seeding.visit limited member, ?_, visit_keeps member
      (P := fun run => ∀ c ∈ run.calls, c.rule < rules.length)
      (fun run rule c _ member inside => Run.inside_perform member inside) inside⟩
    unfold visit
    dsimp only
    split
    · exact within
    · exact (within_step limits s within rule _).1
  · intro s ⟨seeding, within, inside⟩
    refine ⟨?_, within, ?_⟩
    · split
      · exact seeding.serving limited
      · exact (seeding.serving limited).countIteration
    · dsimp only
      split <;> exact inside

theorem Limited.turn (limited : 0 < limits.maxEvaluations) (before : Limited limits rules s)
    (turn : Turn limits rules s s') : Limited limits rules s' := by
  obtain ⟨serving, within, inside⟩ := before
  cases turn with
  | serve ok member =>
    refine ⟨serving.countIteration.step limited ok member _,
      (within_step limits (_, _) within.tail _ _).1, ?_⟩
    rw [step_fst]
    exact Run.inside_perform member inside

omit [FactStore τ] in
/-- A rule may be called once more often than the limit says, as a limit of one does not always hold. -/
theorem Limited.calls_le (during : Limited limits rules s) :
    s.1.calls.length ≤ rules.length * (limits.maxEvaluations + 1) := by
  refine Run.length_calls_le during.inside fun i => ?_
  rcases during.serving.bounded i with below | ⟨one, twice, -⟩
  · exact below.trans (Nat.le_succ _)
  · rw [one, twice]

/-- Limits bound the calls of a dependency-aware run. -/
theorem ends_of_limited (limited : 0 < limits.maxEvaluations) (stratum : Nat) (store : τ) (env : σ) :
    ∃ run, run.calls.length ≤ rules.length * (limits.maxEvaluations + 1) ∧
      ∀ fuel, rules.length * (limits.maxEvaluations + 1) < fuel →
        evaluate fuel limits stratum rules store env = some run := by
  obtain ⟨last, calls, ends⟩ := loop_ends (fun s s' before turn => Limited.turn limited before turn)
    (fun s during => during.within) (fun s during => during.calls_le)
    (limited_seed limited stratum store env)
  exact ⟨last, calls, fun fuel enough => ends fuel (Nat.lt_add_right _ enough)⟩

/-! #### Confined evaluations -/

/-- The first round and the new tuples, each of which makes at most all `n` rules wait, account for the
calls that were made and for those that wait to be made. -/
structure Afforded (n : Nat) (s : Run σ τ × Worklist) : Prop where
  within : s.2.Within n
  afforded : s.1.calls.length + s.2.length ≤ n * (s.1.report.newFacts + 1)

theorem afforded_seed (limits : Limits) (rules : List (EvaluableRule σ)) (stratum : Nat) (store : τ)
    (env : σ) : Afforded rules.length (seed limits rules (.start stratum rules.length store env)) := by
  let First (k : Nat) (s : Run σ τ × Worklist) : Prop := s.2.Within rules.length ∧
    s.1.calls.length ≤ k ∧ s.2.length ≤ rules.length * s.1.report.newFacts
  refine seed_keeps (F := First) (L := Afforded rules.length) ⟨.nil _, le_rfl, Nat.zero_le _⟩ ?_ ?_
  · intro k rule s _ ⟨within, calls, waiting⟩
    unfold visit
    dsimp only
    split
    · exact ⟨within, calls.trans (Nat.le_succ k), waiting⟩
    · obtain ⟨within', more⟩ := within_step limits s within rule ⟨k, ⟨s.1.report.stratum, 0, k⟩, none⟩
      refine ⟨within', ?_, ?_⟩
      · rw [length_calls_step]
        exact Nat.add_le_add_right calls 1
      · rw [newFacts_step, Nat.mul_add]
        exact more.trans (Nat.add_le_add_right waiting _)
  · intro s ⟨within, calls, waiting⟩
    refine ⟨within, ?_⟩
    rw [Nat.mul_succ, Nat.add_comm]
    dsimp only
    split <;> exact Nat.add_le_add waiting calls

/-- The call of a turn waited before. -/
theorem Afforded.turn (before : Afforded rules.length s) (turn : Turn limits rules s s') :
    Afforded rules.length s' := by
  obtain ⟨within, afforded⟩ := before
  cases turn with
  | @serve run i new w rule ok member =>
    let counted : Run σ τ := { run with report := run.report.countIteration }
    let c : Call := ⟨i, ⟨run.report.stratum, run.report.iterations, i⟩, some new⟩
    obtain ⟨within', more⟩ := within_step limits (counted, w) within.tail rule c
    refine ⟨within', ?_⟩
    let after := step limits rules rule c (counted, w)
    have calls : after.1.calls.length = run.calls.length + 1 :=
      length_calls_step limits rules rule c (counted, w)
    have added : after.1.report.newFacts =
        run.report.newFacts + (counted.perform rule c).2.size :=
      newFacts_step limits rules rule c (counted, w)
    calc after.1.calls.length + after.2.length
        ≤ run.calls.length + 1 + (w.length + rules.length * (counted.perform rule c).2.size) := by
          rw [calls]
          exact Nat.add_le_add_left more _
      _ = run.calls.length + (w.length + 1) +
          rules.length * (counted.perform rule c).2.size := by omega
      _ ≤ rules.length * (run.report.newFacts + 1) +
          rules.length * (counted.perform rule c).2.size := Nat.add_le_add_right afforded _
      _ = rules.length * (after.1.report.newFacts + 1) := by
          rw [added, Nat.add_right_comm, Nat.mul_add _ (run.report.newFacts + 1)]

/-- Where new tuples are bounded, so are the calls that they cause. -/
theorem ends_of_confined {K stratum : Nat} {store : τ} {env : σ}
    (confined : ∀ run, Strategy.dependency.Reaches limits stratum rules store env run →
      run.report.newFacts ≤ K) :
    ∃ run, run.calls.length ≤ rules.length * (K + 1) ∧
      ∀ fuel, rules.length * (K + 1) < fuel →
        evaluate fuel limits stratum rules store env = some run := by
  let During (s : Run σ τ × Worklist) : Prop := Relation.ReflTransGen (Turn limits rules)
    (seed limits rules (.start stratum rules.length store env)) s ∧ Afforded rules.length s
  have kept (s s' : Run σ τ × Worklist) (before : During s) (turn : Turn limits rules s s') :
      During s' := ⟨before.1.tail turn, before.2.turn turn⟩
  have bounded (s : Run σ τ × Worklist) (during : During s) :
      s.1.calls.length ≤ rules.length * (K + 1) := by
    have new := confined s.1 ⟨s.2, during.1⟩
    calc s.1.calls.length ≤ s.1.calls.length + s.2.length := Nat.le_add_right _ _
      _ ≤ rules.length * (s.1.report.newFacts + 1) := during.2.afforded
      _ ≤ rules.length * (K + 1) := Nat.mul_le_mul_left _ (Nat.add_le_add_right new 1)
  obtain ⟨last, calls, ends⟩ := loop_ends kept (fun s during => during.2.within) bounded
    ⟨.refl, afforded_seed limits rules stratum store env⟩
  exact ⟨last, calls, fun fuel enough => ends fuel (Nat.lt_add_right _ enough)⟩

end Dependency

/-! ### Evaluations -/

section Evaluations

variable {σ : Type} {rules : List (EvaluableRule σ)} {limits : Limits} {stratum : Nat} {init : Facts}
  {env : σ}

/-- What the facts of a run have beyond the first ones lies in the set. -/
def Run.Confined (init : Facts) (F : Finset Tuple) (run : Run σ Facts) : Prop :=
  ∀ p, ∀ t ∈ run.store.scan p, t ∈ init.scan p ∨ t ∈ F

/-- Runs are confined to a set if rules that are called on facts confined to it return nothing else. -/
theorem Strategy.Reaches.confined {strategy : Strategy} {run : Run σ Facts}
    (h : strategy.Reaches limits stratum rules init env run) {F : Finset Tuple}
    (returns : ∀ run : Run σ Facts, run.Confined init F → ∀ rule ∈ rules, ∀ ctx new out env',
      rule.call ctx new run.store run.env = (.ok out, env') → ∀ t ∈ out, t ∈ F) :
    run.Confined init F := by
  refine h.keeps (P := Run.Confined init F) (fun p t ht => .inl ht) ?_ fun run confined => confined
  intro run rule c _ member confined
  rcases Run.perform_memory run rule c with ⟨e, env', -, performed⟩ | ⟨out, env', answer, performed⟩
  · rw [performed]
    exact confined
  · rw [performed]
    intro p t ht
    rcases Facts.mem_scan_add.1 ht with old | ⟨-, new⟩
    · exact confined p t old
    · exact .inr (returns run confined rule (List.mem_of_getElem? member) _ _ out env' answer t new)

/-- A run over facts in memory fails only with what a rule answered. -/
theorem Strategy.failure_of_evaluate {strategy : Strategy} {fuel : Nat} {run : Run σ Facts}
    (h : strategy.evaluate fuel limits stratum rules init env = some run) {e : EngineError}
    (failed : run.failure = some e) :
    ∃ rule ∈ rules, ∃ c ∈ run.calls, ∃ f env env',
      rule.call c.context c.deltas f env = (.error e, env') := by
  let Answered (run : Run σ Facts) : Prop := ∀ e, run.failure = some e → ∃ rule ∈ rules,
    ∃ c ∈ run.calls, ∃ f env env', rule.call c.context c.deltas f env = (.error e, env')
  suffices answered : Answered run from answered e failed
  refine Strategy.evaluate_keeps (P := Answered) (fun e failed => by cases failed) ?_
    (fun run answered => answered) h
  intro run rule c ok member _ e failed
  rcases Run.perform_memory run rule c with ⟨e', env', answer, performed⟩ | ⟨out, env', -, performed⟩
  · rw [performed] at failed ⊢
    cases failed
    exact ⟨rule, List.mem_of_getElem? member, c, List.mem_append_right _ (List.mem_singleton.2 rfl),
      run.facts, run.env, env', answer⟩
  · rw [performed] at failed
    rw [show run.failure = some e from failed] at ok
    cases ok

/-- **Runs end.** Take any rules, and facts in memory. If the number of evaluations of a rule is limited,
say to `K`, or all that the runs of the evaluation add to the facts lies in a finite set, so that there
are at most `K` new tuples, then either strategy ends, however much fuel it has beyond what the bound
says, after no more than `K + 1` calls for each rule. It ends with a report, or with the failure that a
rule answered with. -/
theorem Strategy.evaluate_terminates (strategy : Strategy) {K : Nat}
    (bounded : 0 < limits.maxEvaluations ∧ K = limits.maxEvaluations ∨
      ∃ F : Finset Tuple, K = (rules.map EvaluableRule.head).toFinset.card * F.card ∧
        ∀ run, strategy.Reaches limits stratum rules init env run → run.Confined init F) :
    ∃ run, (∀ fuel, rules.length * (K + 1) < fuel →
        strategy.evaluate fuel limits stratum rules init env = some run) ∧
      run.calls.length ≤ rules.length * (K + 1) ∧
      ∀ e, run.failure = some e → ∃ rule ∈ rules, ∃ c ∈ run.calls, ∃ f env env',
        rule.call c.context c.deltas f env = (.error e, env') := by
  have new (F : Finset Tuple) (confined : ∀ run,
      strategy.Reaches limits stratum rules init env run → run.Confined init F)
      (run : Run σ Facts) (h : strategy.Reaches limits stratum rules init env run) :
      run.report.newFacts ≤ (rules.map EvaluableRule.head).toFinset.card * F.card := by
    refine Run.Explained.newFacts_le ?_ (confined run h)
    exact h.keeps (P := Run.Explained rules init) (.start rules stratum init env)
      (fun run rule c _ member explained => explained.perform (List.mem_of_getElem? member) c)
      fun run explained => explained.countIteration
  obtain ⟨run, calls, ends⟩ : ∃ run, run.calls.length ≤ rules.length * (K + 1) ∧
      ∀ fuel, rules.length * (K + 1) < fuel →
        strategy.evaluate fuel limits stratum rules init env = some run := by
    rcases bounded with ⟨limited, rfl⟩ | ⟨F, rfl, confined⟩
    · cases strategy with
      | naive => exact Naive.ends_of_limited limited stratum init env
      | dependency => exact Dependency.ends_of_limited limited stratum init env
    · cases strategy with
      | naive => exact Naive.ends_of_confined (new F confined)
      | dependency => exact Dependency.ends_of_confined (new F confined)
  exact ⟨run, ends, calls, fun e failed =>
    Strategy.failure_of_evaluate (ends _ (Nat.lt_succ_self _)) failed⟩

end Evaluations

/-- The tuples that scripts derive: each has numbers up to the call from which on it derives nothing. -/
def Script.tuples (scripts : List Script) : Finset Tuple :=
  (scripts.flatMap fun s => (List.range (s.stopAt + 1)).map fun n =>
    [.str s.head, .int (Int64.ofNat n)]).toFinset

theorem Script.mem_tuples {scripts : List Script} {rule : EvaluableRule (List Nat)}
    (member : rule ∈ Script.rules scripts) {ctx : Context} {new : Option Facts} {f : Facts}
    {counts counts' : List Nat} {out : Relation} (h : rule.call ctx new f counts = (.ok out, counts')) :
    ∀ t ∈ out, t ∈ Script.tuples scripts := by
  obtain ⟨⟨s, i⟩, numbered, rfl⟩ := List.mem_map.1 member
  have listed : s ∈ scripts := List.mem_of_getElem? (List.mem_zipIdx_iff_getElem?.1 numbered)
  have answer : s.answer ctx (counts[i]?.getD 0 + 1) = .ok out := (Prod.mk.inj h).1
  intro t ht
  unfold Script.answer at answer
  split at answer
  · cases answer
  · split at answer
    · cases answer
      exact absurd ht SortedSet.not_mem_empty
    · cases answer
      obtain rfl := SortedSet.mem_singleton.1 ht
      refine List.mem_toFinset.2 (List.mem_flatMap.2 ⟨s, listed, List.mem_map.2 ⟨_, ?_, rfl⟩⟩)
      rw [List.mem_range]
      split <;> omega

/-- A rule that reads what it derives, and has more to derive than anyone waits for. -/
def murmur : List Script := [⟨"a", ["a"], 1000000, none, false⟩]

/-- Under a limit the murmur ends after at most four calls. The echoes end by themselves, as they have
nine tuples for each of two heads. -/
theorem Strategy.evaluate_terminates_murmur :
    (0 < (Limits.mk 3).maxEvaluations ∧ ∃ run, Strategy.dependency.evaluate 5 ⟨3⟩ 7
      (Script.rules murmur) (∅ : Facts) [0] = some run ∧ run.calls.length ≤ 4) ∧
    (∀ run, Strategy.naive.Reaches ⟨0⟩ 7 (Script.rules echoes) echoed [0, 0, 0] run →
      run.Confined echoed (Script.tuples echoes)) ∧
    ∃ run, Strategy.naive.evaluate 58 ⟨0⟩ 7 (Script.rules echoes) echoed [0, 0, 0] = some run ∧
      run.calls.length ≤ 57 := by
  have confined : ∀ run, Strategy.naive.Reaches ⟨0⟩ 7 (Script.rules echoes) echoed [0, 0, 0] run →
      run.Confined echoed (Script.tuples echoes) := fun run h =>
    h.confined fun run _ rule member ctx new out env' answer => Script.mem_tuples member answer
  have bound : 18 = ((Script.rules echoes).map EvaluableRule.head).toFinset.card *
      (Script.tuples echoes).card := by decide +kernel
  have limited : 0 < (Limits.mk 3).maxEvaluations := by decide
  obtain ⟨run, ends, calls, -⟩ := Strategy.evaluate_terminates .dependency (.inl ⟨limited, rfl⟩)
  obtain ⟨run', ends', calls', -⟩ :=
    Strategy.evaluate_terminates .naive (.inr ⟨_, bound, confined⟩)
  exact ⟨⟨limited, run, ends 5 (by decide), calls⟩, confined, run', ends' 58 (by decide), calls'⟩

end Datalog
