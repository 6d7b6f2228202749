import Datalog.Evaluation.Scripted
import Datalog.Proofs.Fixpoint

/-!
# New tuples reach every reader once

What a rule has been called for and what it waits with make one list, oldest first
(`Dependency.history`). Serving the rule leaves the list as it is: what it waited with is now what it
was called for. Only a step that adds tuples changes it, and then the tuples come into it once, for
every rule that reads their predicate. So in a dependency-aware run without a limit these lists split,
at any time, what the predicates have gained (`Dependency.Delivering`). At the end nobody waits, and
the calls alone have brought all of it (`Dependency.evaluate_delivers`).
-/

namespace Datalog

/-! ### Lists of relations that split a set -/

/-- No tuple is in two of the relations, and together they have the tuples of the set. -/
structure Relation.Splits (ds : List Relation) (G : Set Tuple) : Prop where
  apart : ds.Pairwise fun d d' => ∀ t ∈ d, t ∉ d'
  union : ∀ t, (∃ d ∈ ds, t ∈ d) ↔ t ∈ G

namespace Relation.Splits

variable {ds : List Relation} {G : Set Tuple}

theorem nil : Splits [] ∅ := ⟨.nil, by simp⟩

/-- An empty relation may end the list. -/
theorem append_empty (splits : Splits ds G) : Splits (ds ++ [∅]) G := by
  refine ⟨List.pairwise_append.2 ⟨splits.apart, List.pairwise_singleton _ _, ?_⟩, fun t => ?_⟩
  · intro d _ e he t _
    rw [List.mem_singleton.1 he]
    exact SortedSet.not_mem_empty
  · rw [← splits.union t]
    simp [or_and_right, exists_or]

/-- Tuples that are not in the set yet may go into the last relation. -/
theorem extend {d added : Relation} (splits : Splits (ds ++ [d]) G) (fresh : ∀ t ∈ added, t ∉ G) :
    Splits (ds ++ [d.union added]) (G ∪ {t | t ∈ added}) := by
  obtain ⟨before, -, last⟩ := List.pairwise_append.1 splits.apart
  refine ⟨List.pairwise_append.2 ⟨before, List.pairwise_singleton _ _, ?_⟩, fun t => ?_⟩
  · intro e he _ hd t ht
    rw [List.mem_singleton.1 hd, SortedSet.mem_union]
    rintro (old | new)
    · exact last e he d (List.mem_singleton.2 rfl) t ht old
    · exact fresh t new ((splits.union t).1 ⟨e, List.mem_append_left _ he, ht⟩)
  · rw [Set.mem_union, ← splits.union t]
    simp [or_and_right, exists_or, or_assoc]

end Relation.Splits

/-! ### What a rule has been called for -/

namespace Run

variable {σ τ : Type}

/-- The new tuples of a predicate that a rule was called for, call by call. -/
def deltasOf (run : Run σ τ) (i : Nat) (p : Predicate) : List Relation :=
  run.calls.filterMap fun c => if c.rule = i then c.deltas.map (·.scan p) else none

/-- The run with one more call listed. -/
def withCall (run : Run σ τ) (c : Call) : Run σ τ := { run with calls := run.calls ++ [c] }

theorem deltasOf_withCall (run : Run σ τ) (c : Call) (i : Nat) (p : Predicate) :
    (run.withCall c).deltasOf i p =
      run.deltasOf i p ++ if c.rule = i then (c.deltas.map (·.scan p)).toList else [] := by
  unfold deltasOf withCall
  rw [List.filterMap_append]
  by_cases same : c.rule = i
  · cases deltas : c.deltas <;> simp [same, deltas]
  · simp [same]

end Run

namespace Dependency

variable {σ : Type} {rules : List (EvaluableRule σ)} {limits : Limits} {w : Worklist}

/-! ### What a rule waits with -/

namespace Worklist

/-- The new tuples with which a rule waits, for each time that it waits. -/
def newsOf (w : Worklist) (i : Nat) : List Facts :=
  w.filterMap fun e => if e.1 = i then some e.2 else none

theorem newsOf_cons (e : Nat × Facts) (w : Worklist) (i : Nat) :
    newsOf (e :: w) i = if e.1 = i then e.2 :: w.newsOf i else w.newsOf i := by
  unfold newsOf
  rw [List.filterMap_cons]
  by_cases same : e.1 = i <;> simp [same]

theorem newsOf_append (w w' : Worklist) (i : Nat) :
    newsOf (w ++ w') i = w.newsOf i ++ newsOf w' i := List.filterMap_append

variable {i j : Nat} {p : Predicate} {added : Relation}

theorem newsOf_eq_nil_iff : w.newsOf i = [] ↔ (w.any fun e => e.1 == i) = false := by
  simp [newsOf, List.filterMap_eq_nil_iff]

/-- New tuples are added where the rule waits. -/
theorem newsOf_map (w : Worklist) (i j : Nat) (p : Predicate) (added : Relation) :
    newsOf (w.map fun e => if e.1 = i then (i, e.2.add p added) else e) j =
      if j = i then (w.newsOf i).map (·.add p added) else w.newsOf j := by
  induction w with
  | nil => simp [newsOf]
  | cons e w ih =>
    rw [List.map_cons, newsOf_cons, newsOf_cons, newsOf_cons, ih]
    by_cases at_i : e.1 = i
    · by_cases same : j = i
      · simp [at_i, same]
      · simp [at_i, same, Ne.symm same]
    · by_cases same : j = i
      · simp [at_i, same]
      · simp [at_i, same]

theorem newsOf_schedule_of_ne (ne : j ≠ i) : (w.schedule i p added).newsOf j = w.newsOf j := by
  unfold schedule
  split
  · rw [newsOf_map, if_neg ne]
  · rw [newsOf_append, newsOf_cons, if_neg (Ne.symm ne)]
    exact List.append_nil _

/-- A rule that waits at most once waits once after it is scheduled, with the tuples scheduled. -/
theorem newsOf_schedule (once : (w.newsOf i).length ≤ 1) :
    (w.schedule i p added).newsOf i = [((w.newsOf i).headD ∅).add p added] := by
  unfold schedule
  cases waits : w.any fun e => e.1 == i with
  | false =>
    rw [if_neg Bool.false_ne_true, newsOf_append, newsOf_eq_nil_iff.2 waits, newsOf_cons, if_pos rfl]
    rfl
  | true =>
    rw [if_pos rfl, newsOf_map, if_pos rfl]
    obtain ⟨new, alone⟩ : ∃ new, w.newsOf i = [new] := by
      refine List.length_eq_one_iff.1 (Nat.le_antisymm once (List.length_pos_iff.2 fun none => ?_))
      rw [newsOf_eq_nil_iff.1 none] at waits
      cases waits
    rw [alone]
    rfl

end Worklist

open Worklist

section Readers

variable {τ : Type} {run : Run σ τ} {head : Predicate} {added : Relation} {j : Nat}

/-- Rules other than the readers of a predicate wait as before. -/
theorem newsOf_foldl_of_not (es : List (EvaluableRule σ × Nat))
    (others : ∀ e ∈ es, e.2 = j → ¬(e.1.reads.contains head && run.allows limits e.2) = true) :
    newsOf (es.foldl (fun w (rule, i) =>
      if rule.reads.contains head && run.allows limits i then w.schedule i head added else w) w) j =
      w.newsOf j := by
  induction es generalizing w with
  | nil => rfl
  | cons e es ih =>
    obtain ⟨rule, i⟩ := e
    obtain ⟨first, rest⟩ := List.forall_mem_cons.1 others
    rw [List.foldl_cons, ih rest]
    by_cases reads : (rule.reads.contains head && run.allows limits i) = true
    · simp only [reads, if_true]
      exact newsOf_schedule_of_ne fun same => first same.symm reads
    · simp only [reads]
      rfl

/-- Whoever does not read the predicate waits as before. -/
theorem newsOf_scheduleReaders_of_not
    (other : ∀ rule, rules[j]? = some rule → head ∈ rule.reads → run.allows limits j = false) :
    (scheduleReaders limits rules run head added w).newsOf j = w.newsOf j := by
  unfold scheduleReaders
  split
  · rfl
  · refine newsOf_foldl_of_not rules.zipIdx fun e he at_j reads => ?_
    rw [Bool.and_eq_true, List.contains_iff_mem] at reads
    have member := List.mem_zipIdx_iff_getElem?.1 he
    rw [at_j] at member reads
    rw [other e.1 member reads.1] at reads
    cases reads.2

/-- Whoever reads the predicate waits with the new tuples as well. -/
theorem newsOf_scheduleReaders {rule : EvaluableRule σ} (member : rules[j]? = some rule)
    (reads : head ∈ rule.reads) (allowed : run.allows limits j = true)
    (new : added.isEmpty = false) (once : (w.newsOf j).length ≤ 1) :
    (scheduleReaders limits rules run head added w).newsOf j =
      [((w.newsOf j).headD ∅).add head added] := by
  obtain ⟨inside, here⟩ := List.getElem?_eq_some_iff.1 member
  have split_at : rules.zipIdx = (rules.take j).zipIdx ++
      (rule, j) :: (rules.drop (j + 1)).zipIdx (j + 1) := by
    conv_lhs => rw [← List.take_append_drop j rules, List.drop_eq_getElem_cons inside, here]
    rw [List.zipIdx_append, List.zipIdx_cons, List.length_take, Nat.min_eq_left inside.le, Nat.zero_add]
  have before : ∀ e ∈ (rules.take j).zipIdx, e.2 ≠ j := by
    intro e he same
    have := List.snd_lt_of_mem_zipIdx he
    rw [List.length_take] at this
    omega
  have after : ∀ e ∈ (rules.drop (j + 1)).zipIdx (j + 1), e.2 ≠ j := by
    intro e he same
    have := List.le_snd_of_mem_zipIdx he
    omega
  unfold scheduleReaders
  rw [new, if_neg Bool.false_ne_true, split_at, List.foldl_append, List.foldl_cons]
  rw [newsOf_foldl_of_not _ fun e he same => absurd same (after e he)]
  simp only [List.contains_iff_mem.2 reads, allowed, Bool.and_self, if_true]
  rw [newsOf_schedule, newsOf_foldl_of_not _ fun e he same => absurd same (before e he)]
  rw [newsOf_foldl_of_not _ fun e he same => absurd same (before e he)]
  exact once

/-- A rule gets the new tuples to wait with, or nothing happens to it. -/
theorem newsOf_scheduleReaders_cases (limits : Limits) (rules : List (EvaluableRule σ)) (run : Run σ τ)
    (head : Predicate) (added : Relation) (once : (w.newsOf j).length ≤ 1) :
    ((scheduleReaders limits rules run head added w).newsOf j = w.newsOf j ∧
      ∀ rule, rules[j]? = some rule → head ∈ rule.reads → run.allows limits j = true →
        added.isEmpty = true) ∨
    ∃ rule, rules[j]? = some rule ∧ head ∈ rule.reads ∧ added.isEmpty = false ∧
      (scheduleReaders limits rules run head added w).newsOf j =
        [((w.newsOf j).headD ∅).add head added] := by
  by_cases reader : ∃ rule, rules[j]? = some rule ∧ head ∈ rule.reads ∧ run.allows limits j = true
  · obtain ⟨rule, member, reads, allowed⟩ := reader
    cases filled : added.isEmpty with
    | true =>
      refine .inl ⟨?_, fun _ _ _ _ => rfl⟩
      unfold scheduleReaders
      rw [if_pos filled]
    | false =>
      exact .inr ⟨rule, member, reads, rfl, newsOf_scheduleReaders member reads allowed filled once⟩
  · refine .inl ⟨newsOf_scheduleReaders_of_not fun rule member reads => ?_, ?_⟩
    · exact Bool.eq_false_iff.2 fun allowed => reader ⟨rule, member, reads, allowed⟩
    · exact fun rule member reads allowed => absurd ⟨rule, member, reads, allowed⟩ reader

end Readers

/-! ### What steps do to the lists -/

/-- The new tuples of a predicate that a rule was called for, and those that it waits with. -/
def history (s : Run σ Facts × Worklist) (i : Nat) (p : Predicate) : List Relation :=
  s.1.deltasOf i p ++ (s.2.newsOf i).map (·.scan p)

/-- The new tuples concern the rule: there are some, of predicates that it reads only. -/
def Concerns (rules : List (EvaluableRule σ)) (i : Nat) (new : Facts) : Prop :=
  ∃ rule, rules[i]? = some rule ∧ (∀ p ∈ new.predicates, p ∈ rule.reads) ∧ ∃ p t, t ∈ new.scan p

/-- Every rule waits at most once, is called for and waits with tuples that concern it, and what it was
called for and waits with splits what the predicates that it reads have gained. -/
structure Delivering (rules : List (EvaluableRule σ)) (init : Facts) (s : Run σ Facts × Worklist) :
    Prop where
  contains : init.model ≤ s.1.facts.model
  once : ∀ i, (s.2.newsOf i).length ≤ 1
  waiting : ∀ i, ∀ new ∈ s.2.newsOf i, Concerns rules i new
  called : ∀ c ∈ s.1.calls, ∀ new, c.deltas = some new → Concerns rules c.rule new
  splits : ∀ i rule, rules[i]? = some rule → ∀ p ∈ rule.reads,
    Relation.Splits (history s i p) (s.1.facts.model p \ init.model p)

variable {init : Facts} {run : Run σ Facts} {c : Call}

theorem Delivering.start (stratum : Nat) (init : Facts) (env : σ) :
    Delivering rules init (.start stratum rules.length init env, []) where
  contains := le_rfl
  once _ := Nat.zero_le _
  waiting _ _ waits := by cases waits
  called _ listed := by cases listed
  splits i rule _ p _ := by
    show Relation.Splits [] (init.model p \ init.model p)
    rw [Set.sdiff_self]
    exact .nil

/-- A call against all facts is no delivery. -/
theorem Delivering.full (delivering : Delivering rules init (run, w)) (full : c.deltas = none) :
    Delivering rules init (run.withCall c, w) where
  contains := delivering.contains
  once := delivering.once
  waiting := delivering.waiting
  called c' listed new given := by
    rcases List.mem_append.1 listed with before | last
    · exact delivering.called c' before new given
    · rw [List.mem_singleton.1 last, full] at given
      cases given
  splits i rule member p reads := by
    have same : history (run.withCall c, w) i p = history (run, w) i p := by
      unfold history
      rw [Run.deltasOf_withCall, full]
      simp
    rw [same]
    exact delivering.splits i rule member p reads

/-- Serving a rule turns what it waited with into what it was called for. -/
theorem Delivering.serve {i : Nat} {new : Facts} {ctx : Context}
    (delivering : Delivering rules init (run, (i, new) :: w)) :
    Delivering rules init (run.withCall ⟨i, ctx, some new⟩, w) where
  contains := delivering.contains
  once j := by
    have before := delivering.once j
    rw [newsOf_cons] at before
    split at before
    · exact (Nat.le_succ _).trans before
    · exact before
  waiting j new' waits := by
    refine delivering.waiting j new' ?_
    rw [newsOf_cons]
    split
    · exact List.mem_cons_of_mem _ waits
    · exact waits
  called c listed new' given := by
    rcases List.mem_append.1 listed with before | last
    · exact delivering.called c before new' given
    · rw [List.mem_singleton.1 last] at given ⊢
      cases given
      refine delivering.waiting i new ?_
      rw [newsOf_cons, if_pos rfl]
      exact List.mem_cons_self
  splits j rule member p reads := by
    have same : history (run.withCall ⟨i, ctx, some new⟩, w) j p = history (run, (i, new) :: w) j p := by
      unfold history
      rw [Run.deltasOf_withCall, newsOf_cons]
      by_cases at_j : i = j <;> simp [at_j]
    rw [same]
    exact delivering.splits j rule member p reads

/-- The list of a rule, with an empty relation for a rule that does not wait. -/
theorem splits_headD {ds : List Relation} {news : List Facts} {p : Predicate} {G : Set Tuple}
    (once : news.length ≤ 1) (splits : Relation.Splits (ds ++ news.map (·.scan p)) G) :
    Relation.Splits (ds ++ [(news.headD ∅).scan p]) G := by
  match news with
  | [] =>
    rw [List.map_nil, List.append_nil] at splits
    exact splits.append_empty
  | [new] => exact splits
  | _ :: _ :: _ => simp at once

/-- What a predicate has gained once tuples are added. -/
theorem gained_add (contains : init.model ≤ run.facts.model) (head p : Predicate) (out : Relation) :
    (run.facts.add head out).model p \ init.model p =
      if p = head then run.facts.model p \ init.model p ∪ {t | t ∈ out.diff (run.facts.scan head)}
      else run.facts.model p \ init.model p := by
  ext t
  have old : t ∈ init.model p → t ∈ run.facts.model p := fun ht => contains p ht
  have grown : t ∈ (run.facts.add head out).model p ↔ t ∈ run.facts.model p ∨ p = head ∧ t ∈ out :=
    Facts.mem_scan_add
  by_cases same : p = head
  · subst same
    rw [if_pos rfl, Set.mem_sdiff, grown, Set.mem_union, Set.mem_sdiff, Set.mem_ofPred_eq,
      SortedSet.mem_diff, ← Facts.mem_model]
    tauto
  · rw [if_neg same, Set.mem_sdiff, grown, Set.mem_sdiff]
    simp [same]

/-- Adding what a rule returned, and scheduling the readers with what was new, keeps all that. -/
theorem Delivering.grow (delivering : Delivering rules init (run, w))
    (unlimited : limits.maxEvaluations = 0) {run' : Run σ Facts} {head : Predicate} {out : Relation}
    (grown : run'.facts = run.facts.add head out) (calls : run'.calls = run.calls) :
    Delivering rules init
      (run', scheduleReaders limits rules run' head (out.diff (run.facts.scan head)) w) := by
  let added := out.diff (run.facts.scan head)
  have news (j : Nat) :=
    newsOf_scheduleReaders_cases limits rules run' head added (delivering.once j)
  have allowed (j : Nat) : run'.allows limits j = true := Limits.allows_of_unlimited unlimited _
  refine ⟨?_, fun j => ?_, fun j new waits => ?_, fun c listed => ?_, fun j rule member p reads => ?_⟩
  · rw [grown]
    have more : run.facts.model ≤ (run.facts.add head out).model := Facts.model_le_add _ _ _
    exact delivering.contains.trans more
  · rcases news j with ⟨same, -⟩ | ⟨-, -, -, -, got⟩
    · rw [same]
      exact delivering.once j
    · rw [got]
      exact Nat.le_refl 1
  · rcases news j with ⟨same, -⟩ | ⟨rule, member, reads, filled, got⟩
    · rw [same] at waits
      exact delivering.waiting j new waits
    · rw [got] at waits
      obtain rfl := List.mem_singleton.1 waits
      refine ⟨rule, member, fun p listed => ?_, ?_⟩
      · rcases Facts.mem_predicates_add.1 listed with rfl | before
        · exact reads
        · cases waited : w.newsOf j with
          | nil =>
            rw [waited] at before
            cases before
          | cons new news =>
            rw [waited] at before
            obtain ⟨rule', member', concerned, -⟩ :=
              delivering.waiting j new (by rw [waited]; exact List.mem_cons_self)
            rw [member] at member'
            cases member'
            exact concerned p before
      · obtain ⟨t, ht⟩ := SortedSet.isEmpty_eq_false_iff.1 filled
        exact ⟨head, t, Facts.mem_scan_add.2 (.inr ⟨rfl, ht⟩)⟩
  · rw [calls] at listed
    exact delivering.called c listed
  · have before := delivering.splits j rule member p reads
    have listed : run'.deltasOf j p = run.deltasOf j p := by
      unfold Run.deltasOf
      rw [calls]
    unfold history at before ⊢
    rw [grown, gained_add delivering.contains, listed]
    rcases news j with ⟨same, nothing⟩ | ⟨rule', member', reads', filled, got⟩
    · -- A rule that reads the head and gets nothing to wait with misses nothing: nothing was new.
      rw [same]
      split
      · next at_head =>
        have none := SortedSet.isEmpty_iff.1 (nothing rule member (at_head ▸ reads) (allowed j))
        have unchanged : {t | t ∈ added} = ∅ := Set.eq_empty_of_forall_notMem none
        rw [unchanged, Set.union_empty]
        exact before
      · exact before
    · rw [got, List.map_singleton]
      have padded := splits_headD (delivering.once j) before
      split
      · next at_head =>
        subst at_head
        rw [Facts.scan_add_self]
        -- What is new was not stored, so no earlier part of the list has it.
        refine padded.extend fun t ht gained => ?_
        exact (SortedSet.mem_diff.1 ht).2 gained.1
      · next other =>
        rw [Facts.scan_add_of_ne _ _ other]
        exact padded

/-- A step keeps all that, once its call is listed. -/
theorem Delivering.step (delivering : Delivering rules init (run.withCall c, w))
    (unlimited : limits.maxEvaluations = 0) (ok : run.failure = none) (rule : EvaluableRule σ) :
    Delivering rules init (step limits rules rule c (run, w)) := by
  cases answer : rule.call c.context c.deltas run.facts run.env with
  | mk result env =>
    cases result with
    | error e =>
      have performed := Run.perform_of_error answer
      rw [step_of_error (e := e) (by rw [performed]), performed]
      exact ⟨delivering.contains, delivering.once, delivering.waiting, delivering.called,
        delivering.splits⟩
    | ok out =>
      obtain ⟨store, -, grown, performed⟩ := Run.perform_of_answer Facts.reliable trivial answer
      rw [step_of_ok (by rw [performed, ok]), performed]
      exact delivering.grow unlimited grown rfl

theorem Delivering.visit (unlimited : limits.maxEvaluations = 0) {s : Run σ Facts × Worklist}
    (delivering : Delivering rules init s) (rule : EvaluableRule σ) (k : Nat) :
    Delivering rules init (visit limits rules s (rule, k)) := by
  unfold Dependency.visit
  dsimp only
  split
  · exact delivering
  · next goes => exact (delivering.full rfl).step unlimited (Run.goes_on goes).1 rule

theorem Delivering.countIteration (delivering : Delivering rules init (run, w)) :
    Delivering rules init ({ run with report := run.report.countIteration }, w) :=
  ⟨delivering.contains, delivering.once, delivering.waiting, delivering.called, delivering.splits⟩

/-- **Every new tuple reaches every reader once.** Take any rules and any facts, and a dependency-aware
run without a limit that did not fail. What a rule was called for of a predicate that it reads, call
by call, splits what the predicate gained in the run: no tuple came twice, and all of them came. A
rule is called for tuples of predicates that it reads only, and never for none. -/
theorem evaluate_delivers (unlimited : limits.maxEvaluations = 0) {fuel stratum : Nat} {env : σ}
    (h : Strategy.dependency.evaluate fuel limits stratum rules init env = some run)
    (ok : run.failure = none) :
    (∀ i rule, rules[i]? = some rule → ∀ p ∈ rule.reads,
      Relation.Splits (run.deltasOf i p) (run.store.model p \ init.model p)) ∧
    ∀ c ∈ run.calls, ∀ new, c.deltas = some new → ∃ rule, rules[c.rule]? = some rule ∧
      (∀ p ∈ new.predicates, p ∈ rule.reads) ∧ ∃ p t, t ∈ new.scan p := by
  obtain ⟨w, delivering, ended⟩ := evaluate_keeps (F := fun _ => Delivering rules init)
    (L := Delivering rules init) (Delivering.start stratum init env)
    (fun k rule s _ delivering => delivering.visit unlimited rule k)
    (fun s delivering => by
      split
      · exact delivering
      · exact delivering.countIteration)
    (fun run i new w missing delivering => by
      obtain ⟨rule, member, -⟩ := delivering.waiting i new (by simp [newsOf_cons])
      rw [missing] at member
      cases member)
    (fun run i new w rule ok _ delivering => delivering.countIteration.serve.step unlimited ok rule)
    h
  -- Nobody waits any more, so the list of a rule is what it was called for.
  rw [ended ok] at delivering
  refine ⟨fun i rule member p reads => ?_, delivering.called⟩
  have splits := delivering.splits i rule member p reads
  unfold history at splits
  rw [show newsOf [] i = [] from rfl, List.map_nil, List.append_nil] at splits
  exact splits

/-- A rule that feeds itself, and one that reads both heads and is called before the first has ended. -/
def chorus : List Script := [⟨"a", ["a"], 4, none, false⟩, ⟨"b", ["a", "b"], 3, none, false⟩]

/-- The second rule is called for the tuples of the first one by one, or as many as have come while it
waited. -/
theorem chorus_delivers :
    ({} : Limits).maxEvaluations = 0 ∧
    ∃ run, Strategy.dependency.evaluate 9 {} 0 (Script.rules chorus) (∅ : Facts) [0, 0] = some run ∧
      run.failure = none ∧
      (run.deltasOf 1 ⟨"a", 2⟩).map SortedSet.toList =
        [[[.str "a", .int 1], [.str "a", .int 2]], [[.str "a", .int 3]]] ∧
      Relation.Splits (run.deltasOf 1 ⟨"a", 2⟩) (run.store.model ⟨"a", 2⟩ \ Facts.model ∅ ⟨"a", 2⟩) := by
  have evaluated : (Strategy.dependency.evaluate 9 {} 0 (Script.rules chorus) (∅ : Facts) [0, 0]).map
      (fun run => (run.failure, (run.deltasOf 1 ⟨"a", 2⟩).map SortedSet.toList)) =
      some (none, [[[.str "a", .int 1], [.str "a", .int 2]], [[.str "a", .int 3]]]) := by
    decide +kernel
  obtain ⟨run, h, answered⟩ := Option.map_eq_some_iff.1 evaluated
  obtain ⟨ok, called⟩ := Prod.mk.inj answered
  obtain ⟨splits, -⟩ := evaluate_delivers rfl h ok
  exact ⟨rfl, run, h, ok, called, splits 1 _ rfl ⟨"a", 2⟩ (by decide)⟩

end Dependency

end Datalog
