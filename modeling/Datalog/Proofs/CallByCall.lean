import Datalog.Evaluation

/-!
# What every call keeps, a run keeps

Whatever the rules answer, a run of either strategy is a sequence of calls with counts of iterations
between them. So what holds at the start and is kept by each of these holds at the end, also of a run
that fails (`Strategy.evaluate_keeps`). A naive run calls only rules that the limits allow; of a
dependency-aware run, the first round and the calls after it are told apart, and the rules that wait
are part of what is kept (`Dependency.evaluate_keeps`).
-/

namespace Datalog

variable {σ τ : Type} [FactStore τ] {rules : List (EvaluableRule σ)} {limits : Limits}

theorem Limits.allows_of_unlimited {limits : Limits} (unlimited : limits.maxEvaluations = 0)
    (n : Nat) : limits.allows n = true := by
  simp [allows, unlimited]

omit [FactStore τ] in
/-- A rule is passed over unless nothing failed and the limits allow it. -/
theorem Run.goes_on {run : Run σ τ} {i : Nat}
    (goes : ¬(run.failure.isSome || !run.allows limits i) = true) :
    run.failure = none ∧ run.allows limits i = true := by
  rw [Bool.or_eq_true, not_or, Bool.not_eq_true, Option.isSome_eq_false_iff, Option.isNone_iff_eq_none,
    Bool.not_eq_true', Bool.not_eq_false] at goes
  exact goes

/-- A call is listed, whether it is answered or not. -/
theorem Run.calls_perform (run : Run σ τ) (rule : EvaluableRule σ) (c : Call) :
    (run.perform rule c).1.calls = run.calls ++ [c] := by
  unfold perform
  dsimp only
  split
  · rfl
  · split <;> rfl

/-- A call neither moves to another stratum nor counts an iteration. -/
theorem Run.iterations_perform (run : Run σ τ) (rule : EvaluableRule σ) (c : Call) :
    (run.perform rule c).1.report.stratum = run.report.stratum ∧
      (run.perform rule c).1.report.iterations = run.report.iterations := by
  unfold perform
  dsimp only
  split
  · exact ⟨rfl, rfl⟩
  · split <;> exact ⟨rfl, rfl⟩

/-- What steps over numbered items keep, one item further each time, all of them keep. -/
theorem foldl_zipIdx_keeps {α β : Type} {xs : List α} {f : β → α × Nat → β} {F : Nat → β → Prop}
    (step : ∀ k x b, xs[k]? = some x → F k b → F (k + 1) (f b (x, k))) {b : β} (start : F 0 b) :
    F xs.length (xs.zipIdx.foldl f b) := by
  have from_here (done left : List α) (b : β) (all : done ++ left = xs) (kept : F done.length b) :
      F xs.length ((left.zipIdx done.length).foldl f b) := by
    induction left generalizing done b with
    | nil =>
      rw [List.append_nil] at all
      exact all ▸ kept
    | cons x left ih =>
      have next : xs[done.length]? = some x := by
        rw [← all, List.getElem?_append_right (Nat.le_refl _), Nat.sub_self]
        rfl
      have after : F (done ++ [x]).length (f b (x, done.length)) := by
        rw [List.length_append]
        exact step done.length x b next kept
      have rest := ih (done ++ [x]) _ (by rw [List.append_assoc]; exact all) after
      rw [List.length_append] at rest
      exact rest
  exact from_here [] xs b rfl start

namespace Naive

variable {P : Run σ τ → Prop}

/-- A visit is a call of a rule that the limits allow, or nothing. -/
theorem visit_keeps {round i : Nat} {rule : EvaluableRule σ} (member : rules[i]? = some rule)
    (call : ∀ run rule i ctx, run.failure = none → rules[i]? = some rule →
      run.allows limits i = true → P run → P (run.perform rule ⟨i, ctx, none⟩).1)
    {s : Round σ τ} (kept : P s.run) : P (visit limits round s (rule, i)).run := by
  unfold visit
  dsimp only
  split
  · exact kept
  · next goes =>
    obtain ⟨ok, allowed⟩ := Run.goes_on goes
    exact call s.run rule i _ ok member allowed kept

theorem round_keeps
    (call : ∀ run rule i ctx, run.failure = none → rules[i]? = some rule →
      run.allows limits i = true → P run → P (run.perform rule ⟨i, ctx, none⟩).1)
    (count : ∀ run, P run → P { run with report := run.report.countIteration })
    {run : Run σ τ} (kept : P run) : P (round limits rules run).run := by
  have after : P (rules.zipIdx.foldl (visit limits run.report.iterations) { run }).run :=
    foldl_zipIdx_keeps (F := fun _ (s : Round σ τ) => P s.run)
      (fun _ _ _ member kept => visit_keeps member call kept) kept
  unfold round
  dsimp only
  split
  · exact after
  · exact count _ after

/-- **What calls within the limits keep, a naive run keeps.** -/
theorem evaluate_keeps {fuel stratum : Nat} {store : τ} {env : σ} {run : Run σ τ}
    (start : P (.start stratum rules.length store env))
    (call : ∀ run rule i ctx, run.failure = none → rules[i]? = some rule →
      run.allows limits i = true → P run → P (run.perform rule ⟨i, ctx, none⟩).1)
    (count : ∀ run, P run → P { run with report := run.report.countIteration })
    (h : evaluate fuel limits stratum rules store env = some run) : P run := by
  have looped (fuel : Nat) (before : Run σ τ) (kept : P before)
      (h : loop limits rules fuel before = some run) : P run := by
    induction fuel generalizing before with
    | zero => cases h
    | succ fuel ih =>
      have after : P (round limits rules before).run := round_keeps call count kept
      rw [loop] at h
      split at h
      · cases h
        exact after
      · exact ih _ after h
  exact looped fuel _ start h

end Naive

namespace Dependency

variable {F : Nat → Run σ τ × Worklist → Prop} {L : Run σ τ × Worklist → Prop}

/-- The state after the first round: the round is counted unless it failed. -/
theorem seed_eq (run : Run σ τ) :
    seed limits rules run =
      let s := rules.zipIdx.foldl (visit limits rules) (run, [])
      (if s.1.failure.isSome then s.1 else { s.1 with report := s.1.report.countIteration }, s.2) := by
  unfold seed
  dsimp only
  split <;> rfl

theorem loop_nil {run : Run σ τ} (ok : run.failure = none) (fuel : Nat) :
    loop limits rules fuel (run, []) = some run := by
  rw [loop.eq_def]
  simp [ok]

/-- One turn of the loop serves the rule that waits longest. -/
theorem loop_succ {run : Run σ τ} (ok : run.failure = none) (fuel i : Nat) (new : Facts)
    (w : Worklist) :
    loop limits rules (fuel + 1) (run, (i, new) :: w) =
      match rules[i]? with
      | none => loop limits rules fuel (run, w)
      | some rule => loop limits rules fuel (step limits rules rule
          ⟨i, ⟨run.report.stratum, run.report.iterations, i⟩, some new⟩
          ({ run with report := run.report.countIteration }, w)) := by
  rw [loop.eq_def]
  simp only [ok]
  rfl

theorem loop_keeps
    (drops : ∀ run i new w, rules[i]? = none → L (run, (i, new) :: w) → L (run, w))
    (serves : ∀ run i new w rule, run.failure = none → rules[i]? = some rule →
      L (run, (i, new) :: w) → L (step limits rules rule
        ⟨i, ⟨run.report.stratum, run.report.iterations, i⟩, some new⟩
        ({ run with report := run.report.countIteration }, w)))
    {fuel : Nat} {s : Run σ τ × Worklist} {run : Run σ τ} (kept : L s)
    (h : loop limits rules fuel s = some run) :
    ∃ w, L (run, w) ∧ (run.failure = none → w = []) := by
  induction fuel generalizing s with
  | zero =>
    obtain ⟨before, w⟩ := s
    rw [loop.eq_def] at h
    dsimp only at h
    split at h
    · next failed =>
      cases h
      refine ⟨w, kept, fun ok => ?_⟩
      rw [ok] at failed
      cases failed
    · cases w with
      | nil =>
        cases h
        exact ⟨[], kept, fun _ => rfl⟩
      | cons e w => cases h
  | succ fuel ih =>
    obtain ⟨before, w⟩ := s
    by_cases failed : before.failure = none
    · cases w with
      | nil =>
        rw [loop_nil failed] at h
        cases h
        exact ⟨[], kept, fun _ => rfl⟩
      | cons e w =>
        obtain ⟨i, new⟩ := e
        rw [loop_succ failed] at h
        cases served : rules[i]? with
        | none =>
          rw [served] at h
          exact ih (drops before i new w served kept) h
        | some rule =>
          rw [served] at h
          exact ih (serves before i new w rule failed served kept) h
    · rw [loop.eq_def] at h
      dsimp only at h
      rw [if_pos (Option.isSome_iff_ne_none.2 failed)] at h
      cases h
      exact ⟨w, kept, fun ok => absurd ok failed⟩

/-- What the first round keeps, visit by visit. -/
theorem seed_keeps {run : Run σ τ} (start : F 0 (run, []))
    (visits : ∀ k rule s, rules[k]? = some rule → F k s →
      F (k + 1) (visit limits rules s (rule, k)))
    (seeded : ∀ s, F rules.length s → L
      (if s.1.failure.isSome then s.1 else { s.1 with report := s.1.report.countIteration }, s.2)) :
    L (seed limits rules run) := by
  rw [seed_eq]
  exact seeded _ (foldl_zipIdx_keeps visits start)

/-- **What the first round keeps, visit by visit, and what then every served rule keeps, a
dependency-aware run keeps.** At the end no rule waits, unless the run failed. -/
theorem evaluate_keeps {fuel stratum : Nat} {store : τ} {env : σ} {run : Run σ τ}
    (start : F 0 (.start stratum rules.length store env, []))
    (visits : ∀ k rule s, rules[k]? = some rule → F k s →
      F (k + 1) (visit limits rules s (rule, k)))
    (seeded : ∀ s, F rules.length s → L
      (if s.1.failure.isSome then s.1 else { s.1 with report := s.1.report.countIteration }, s.2))
    (drops : ∀ run i new w, rules[i]? = none → L (run, (i, new) :: w) → L (run, w))
    (serves : ∀ run i new w rule, run.failure = none → rules[i]? = some rule →
      L (run, (i, new) :: w) → L (step limits rules rule
        ⟨i, ⟨run.report.stratum, run.report.iterations, i⟩, some new⟩
        ({ run with report := run.report.countIteration }, w)))
    (h : evaluate fuel limits stratum rules store env = some run) :
    ∃ w, L (run, w) ∧ (run.failure = none → w = []) :=
  loop_keeps drops serves (seed_keeps start visits seeded) h

/-- A step is a call; its run is that of the call. -/
theorem step_fst (rule : EvaluableRule σ) (c : Call) (s : Run σ τ × Worklist) :
    (step limits rules rule c s).1 = (s.1.perform rule c).1 := by
  unfold step
  dsimp only
  split <;> rfl

/-- After a call that fails, the same rules wait. -/
theorem step_of_error {rule : EvaluableRule σ} {c : Call} {s : Run σ τ × Worklist} {e : EngineError}
    (failed : (s.1.perform rule c).1.failure = some e) :
    step limits rules rule c s = ((s.1.perform rule c).1, s.2) := by
  unfold step
  simp [failed]

/-- After any other call, the readers of what is new wait, too. -/
theorem step_of_ok {rule : EvaluableRule σ} {c : Call} {s : Run σ τ × Worklist}
    (ok : (s.1.perform rule c).1.failure = none) :
    step limits rules rule c s = ((s.1.perform rule c).1,
      scheduleReaders limits rules (s.1.perform rule c).1 rule.head (s.1.perform rule c).2 s.2) := by
  unfold step
  simp [ok]

/-- A visit is a call, or nothing. -/
theorem visit_keeps {P : Run σ τ → Prop} {k : Nat} {rule : EvaluableRule σ}
    (member : rules[k]? = some rule)
    (call : ∀ run rule c, run.failure = none → rules[c.rule]? = some rule → P run →
      P (run.perform rule c).1)
    {s : Run σ τ × Worklist} (kept : P s.1) : P (visit limits rules s (rule, k)).1 := by
  unfold visit
  dsimp only
  split
  · exact kept
  · next goes =>
    rw [step_fst]
    exact call s.1 rule _ (Run.goes_on goes).1 member kept

end Dependency

/-- **What every call keeps, a run of either strategy keeps.** -/
theorem Strategy.evaluate_keeps {P : Run σ τ → Prop} {strategy : Strategy} {fuel stratum : Nat}
    {store : τ} {env : σ} {run : Run σ τ} (start : P (.start stratum rules.length store env))
    (call : ∀ run rule c, run.failure = none → rules[c.rule]? = some rule → P run →
      P (run.perform rule c).1)
    (count : ∀ run, P run → P { run with report := run.report.countIteration })
    (h : strategy.evaluate fuel limits stratum rules store env = some run) : P run := by
  cases strategy with
  | naive =>
    exact Naive.evaluate_keeps start (fun run rule i ctx ok member _ => call run rule _ ok member)
      count h
  | dependency =>
    obtain ⟨w, kept, -⟩ := Dependency.evaluate_keeps (F := fun _ s => P s.1) (L := fun s => P s.1)
      start (fun _ _ _ member kept => Dependency.visit_keeps member call kept)
      (fun s kept => by
        dsimp only
        split
        · exact kept
        · exact count _ kept)
      (fun _ _ _ _ _ kept => kept)
      (fun run i new w rule ok member kept => by
        rw [Dependency.step_fst]
        exact call _ rule _ ok member (count _ kept))
      h
    exact kept

end Datalog
