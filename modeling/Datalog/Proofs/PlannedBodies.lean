import Datalog.Proofs.SafeOrders

/-!
# Planned bodies

A planned body has its joins in the lexicographically first order among those that score highest
(`JoinPlanner.run_optimal`). Between them each other literal stands as early as its arguments allow,
and of several that can stand at one place the first in the body as written does
(`JoinPlanner.plan_placed`). Neither choice is made differently the second time, so planning a planned
rule changes nothing (`JoinPlanner.plan_plan`).
-/

namespace Datalog

/-! ### Where a literal can stand -/

/-- The argument at a position holds a variable that is not in `S`. -/
def Atom.OpenAt (a : Atom) (S : List String) (i : Nat) : Prop :=
  ∃ t, a.terms[i]? = some t ∧ ∃ x ∈ t.occurrences, x ∉ S

theorem Atom.mem_unboundPositions_iff {a : Atom} {S : List String} {i : Nat} :
    i ∈ a.unboundPositions S ↔ a.OpenAt S i := by
  simp [unboundPositions, OpenAt, List.mem_zipIdx_iff_getElem?]

theorem Atom.nodup_unboundPositions (a : Atom) (S : List String) : (a.unboundPositions S).Nodup := by
  have positions : (a.terms.zipIdx.map Prod.snd).Nodup := by
    rw [List.zipIdx_map_snd]
    exact List.nodup_range'
  exact positions.sublist (List.filter_sublist.map _)

/-- A literal that is not joined can be evaluated where the variables of `S` have values. A negated one
needs all of its variables; a builtin may lack the value of one argument, which has to be a variable
at a position that it computes. -/
def Literal.Evaluable (S : List String) (l : Literal) : Prop :=
  if l.positive then
    ∃ b, l.builtin? = some b ∧ ∀ i, l.atom.OpenAt S i →
      b.canBind i = true ∧ (∃ x, l.atom.terms[i]? = some (.var x)) ∧ ∀ j, l.atom.OpenAt S j → j = i
  else ∀ x ∈ l.varNames, x ∈ S

/-- A builtin is ready when the argument that lacks a value, if there is one, is the only one and can
be computed. -/
theorem Builtin.ready_iff {S : List String} {b : Builtin} {a : Atom} :
    Ready S (b, a) ↔ ∀ i, a.OpenAt S i →
      b.canBind i = true ∧ (∃ x, a.terms[i]? = some (.var x)) ∧ ∀ j, a.OpenAt S j → j = i := by
  simp only [← Atom.mem_unboundPositions_iff]
  have nodup := a.nodup_unboundPositions S
  unfold Ready mode
  match unbound : a.unboundPositions S with
  | [] => simp
  | [i] =>
    simp only [List.mem_singleton, forall_eq, and_true]
    cases at_position : a.terms[i]? with
    | none => simp
    | some t => cases t <;> cases bindable : b.canBind i <;> simp [Term.varName?]
  | i :: j :: is =>
    refine iff_of_false (by simp) fun only => ?_
    have same : j = i := (only i (by simp)).2.2 j (by simp)
    simp [unbound, same] at nodup

namespace JoinOrder

theorem placeable_iff_evaluable {S : List String} {l : Literal} (other : l.isJoinable = false) :
    placeable l S = true ↔ l.Evaluable S := by
  unfold Literal.Evaluable
  cases pos : l.positive with
  | false => simpa using placeable_iff_bound (.inl pos)
  | true =>
    cases builtin : l.builtin? with
    | none => simp [Literal.isJoinable_iff.2 ⟨builtin, pos⟩] at other
    | some b => simp [placeable_iff_ready pos builtin, Builtin.ready_iff]

/-! ### Merged bodies, literal by literal -/

/-- The variables that have values after literals of a body, each of which stands beside its position
in the body as written. -/
def boundAfter (bound : List String) (before : List (Literal × Nat)) : List String :=
  bound ++ before.flatMap fun e => bindings e.1

theorem boundAfter_cons (bound : List String) (e : Literal × Nat) (before : List (Literal × Nat)) :
    boundAfter bound (e :: before) = boundAfter (bound ++ bindings e.1) before := by
  simp [boundAfter]

/-- The literals `placed` and after them `left` are a body in which nothing waits needlessly. -/
structure Placed (bound : List String) (placed left : List (Literal × Nat)) : Prop where
  /-- What stands after a join could not stand before it. -/
  prompt : ∀ before join after, placed = before ++ join :: after → join.1.isJoinable = true →
    ∀ m ∈ after ++ left, m.1.isJoinable = false → ¬m.1.Evaluable (boundAfter bound before)
  /-- What is not joined can be evaluated where it stands, and was written before all else that could
  stand there. -/
  first : ∀ before e after, placed = before ++ e :: after → e.1.isJoinable = false →
    e.1.Evaluable (boundAfter bound before) ∧ ∀ m ∈ after ++ left, m.1.isJoinable = false →
      m.1.Evaluable (boundAfter bound before) → e.2 < m.2
  /-- What can never be evaluated is left for the end, -/
  stuck : ∀ m ∈ left, m.1.isJoinable = false ∧ ¬m.1.Evaluable (boundAfter bound placed)
  /-- in the order in which it was written. -/
  asWritten : left.Pairwise fun m m' => m.2 < m'.2

/-- A literal before a body in which nothing waits needlessly. -/
theorem Placed.cons {bound : List String} {placed left : List (Literal × Nat)} {e : Literal × Nat}
    (rest : Placed (bound ++ bindings e.1) placed left)
    (prompt : e.1.isJoinable = true →
      ∀ m ∈ placed ++ left, m.1.isJoinable = false → ¬m.1.Evaluable bound)
    (first : e.1.isJoinable = false → e.1.Evaluable bound ∧
      ∀ m ∈ placed ++ left, m.1.isJoinable = false → m.1.Evaluable bound → e.2 < m.2) :
    Placed bound (e :: placed) left := by
  have start : boundAfter bound [] = bound := List.append_nil bound
  refine ⟨?_, ?_, fun m hm => ?_, rest.asWritten⟩
  · intro before join after split joinable
    rcases List.cons_eq_append_iff.1 split with ⟨rfl, same⟩ | ⟨before', rfl, same⟩
    · cases same
      rw [start]
      exact prompt joinable
    · rw [boundAfter_cons]
      exact rest.prompt before' join after same joinable
  · intro before e' after split other
    rcases List.cons_eq_append_iff.1 split with ⟨rfl, same⟩ | ⟨before', rfl, same⟩
    · cases same
      rw [start]
      exact first other
    · rw [boundAfter_cons]
      exact rest.first before' e' after same other
  · rw [boundAfter_cons]
    exact rest.stuck m hm

variable {bound : List String} {pending ls body : List Literal}

/-- Merging lets nothing wait needlessly. -/
theorem Merges.exists_placed (merges : Merges bound pending ls body)
    {waiting joins : List (Literal × Nat)} (hwaiting : waiting.map Prod.fst = pending)
    (hjoins : joins.map Prod.fst = ls) (joinable : ∀ e ∈ joins, e.1.isJoinable = true)
    (deferred : ∀ e ∈ waiting, e.1.isJoinable = false)
    (asWritten : waiting.Pairwise fun m m' => m.2 < m'.2) :
    ∃ placed left, body = (placed ++ left).map Prod.fst ∧
      (placed ++ left).Perm (joins ++ waiting) ∧ Placed bound placed left := by
  induction merges generalizing waiting joins with
  | @place bound pending rest ls body l next _ ih =>
    obtain ⟨front, back, split, rfl, ready, waits⟩ := nextReady?_eq_some_iff.1 next
    subst hwaiting
    obtain ⟨before, others, rfl, rfl, tail⟩ := List.map_eq_append_iff.1 split
    obtain ⟨e, after, rfl, rfl, rfl⟩ := List.map_eq_cons_iff.1 tail
    have fewer : (before ++ after).Sublist (before ++ e :: after) :=
      (List.sublist_cons_self e after).append_left before
    obtain ⟨placed, left, rfl, perm, rest⟩ := ih (List.map_append ..) hjoins joinable
      (fun m hm => deferred m (fewer.subset hm)) (asWritten.sublist fewer)
    have own : e.1.isJoinable = false := deferred e (by simp)
    refine ⟨e :: placed, left, rfl, ?_, rest.cons (fun join => ?_) fun _ => ⟨?_, fun m hm other now => ?_⟩⟩
    · have moved : (e :: (joins ++ (before ++ after))).Perm (joins ++ (before ++ e :: after)) := by
        rw [← List.append_assoc, ← List.append_assoc]
        exact List.perm_middle.symm
      exact (perm.cons e).trans moved
    · rw [own] at join
      cases join
    · exact (placeable_iff_evaluable own).1 ready
    · rcases List.mem_append.1 (perm.mem_iff.1 hm) with join | waits'
      · rw [joinable m join] at other
        cases other
      · rcases List.mem_append.1 waits' with earlier | later
        · have unplaced := waits m.1 (List.mem_map_of_mem earlier)
          rw [(placeable_iff_evaluable other).2 now] at unplaced
          cases unplaced
        · have increasing := (List.pairwise_append.1 asWritten).2.1
          exact (List.pairwise_cons.1 increasing).1 m later
  | @join bound pending ls body l none _ ih =>
    obtain ⟨j, joins, rfl, rfl, hjoins'⟩ := List.map_eq_cons_iff.1 hjoins
    obtain ⟨first, others⟩ := List.forall_mem_cons.1 joinable
    obtain ⟨placed, left, rfl, perm, rest⟩ := ih hwaiting hjoins' others deferred asWritten
    rw [← bindings_of_isJoinable first] at rest
    refine ⟨j :: placed, left, rfl, perm.cons j, rest.cons (fun _ m hm other now => ?_) fun own => ?_⟩
    · rcases List.mem_append.1 (perm.mem_iff.1 hm) with join | waits
      · rw [others m join] at other
        cases other
      · have unplaced : placeable m.1 bound = false :=
          nextReady?_eq_none_iff.1 none m.1 (hwaiting ▸ List.mem_map_of_mem waits)
        rw [(placeable_iff_evaluable other).2 now] at unplaced
        cases unplaced
    · rw [first] at own
      cases own
  | @done bound pending none =>
    rw [List.map_eq_nil_iff.1 hjoins]
    refine ⟨[], waiting, hwaiting.symm, .refl _, by simp, by simp, fun m hm => ⟨deferred m hm, ?_⟩, asWritten⟩
    rw [← placeable_iff_evaluable (deferred m hm), boundAfter, List.flatMap_nil, List.append_nil]
    rw [nextReady?_eq_none_iff.1 none m.1 (hwaiting ▸ List.mem_map_of_mem hm)]
    exact Bool.false_ne_true

/-! ### Bodies merged again -/

/-- Merging leaves the joins in their order. -/
theorem Merges.filter_isJoinable (merges : Merges bound pending ls body)
    (joinable : ∀ l ∈ ls, l.isJoinable = true) (deferred : ∀ l ∈ pending, l.isJoinable = false) :
    body.filter Literal.isJoinable = ls := by
  induction merges with
  | @place bound pending rest ls body l next _ ih =>
    have others : ∀ m ∈ l :: rest, m.isJoinable = false := fun m hm =>
      deferred m ((perm_of_nextReady? next).subset hm)
    obtain ⟨own, others⟩ := List.forall_mem_cons.1 others
    rw [List.filter_cons_of_neg (by simp [own]), ih joinable others]
  | join _ _ ih =>
    obtain ⟨first, others⟩ := List.forall_mem_cons.1 joinable
    rw [List.filter_cons_of_pos first, ih others deferred]
  | done _ => exact List.filter_eq_nil_iff.2 fun l hl => by simp [deferred l hl]

/-- What is not joined, taken in the order in which it was placed, is placed in that order again. -/
theorem Merges.again (merges : Merges bound pending ls body)
    (joinable : ∀ l ∈ ls, l.isJoinable = true) (deferred : ∀ l ∈ pending, l.isJoinable = false) :
    Merges bound (body.filter fun l => !l.isJoinable) ls body := by
  induction merges with
  | @place bound pending rest ls body l next _ ih =>
    have others : ∀ m ∈ l :: rest, m.isJoinable = false := fun m hm =>
      deferred m ((perm_of_nextReady? next).subset hm)
    obtain ⟨own, others⟩ := List.forall_mem_cons.1 others
    rw [List.filter_cons_of_pos (by simp [own])]
    refine .place (nextReady?_eq_some_iff.2 ⟨[], _, rfl, rfl, placeable_of_nextReady? next, ?_⟩)
      (ih joinable others)
    simp
  | @join bound pending ls body l none merged ih =>
    obtain ⟨first, others⟩ := List.forall_mem_cons.1 joinable
    rw [List.filter_cons_of_neg (by simp [first])]
    refine .join (nextReady?_eq_none_iff.2 fun m hm => ?_) (ih others deferred)
    obtain ⟨member, other⟩ := List.mem_filter.1 hm
    rcases List.mem_append.1 (merged.perm.mem_iff.1 member) with join | waits
    · simp [others m join] at other
    · exact nextReady?_eq_none_iff.1 none m waits
  | @done bound pending none =>
    rw [List.filter_eq_self.2 fun l hl => by simp [deferred l hl]]
    exact .done none

/-- The joins of a body, each beside its position in it, and the rest of it. -/
theorem map_fst_filter_zipIdx (p : Literal → Bool) (body : List Literal) :
    (body.zipIdx.filter fun e => p e.1).map Prod.fst = body.filter p := by
  conv_rhs => rw [← List.zipIdx_map_fst 0 body, List.filter_map]
  rfl

end JoinOrder

namespace JoinPlanner

variable {planner : JoinPlanner} {r : Rule}

theorem merges_plan (searches : planner.Searches r) :
    JoinOrder.Merges [] (r.body.filter fun l => !l.isJoinable)
      (JoinOrder.chosen (r.body.filter Literal.isJoinable)).1 (planner.plan r).body := by
  rw [plan, run_of_searches searches]
  exact JoinOrder.merges_interleaveFrom _ _ _

theorem isJoinable_of_mem_chosen {l : Literal}
    (h : l ∈ (JoinOrder.chosen (r.body.filter Literal.isJoinable)).1) : l.isJoinable = true :=
  (List.mem_filter.1 ((JoinOrder.chosen_mem _).1.subset h)).2

theorem not_isJoinable_of_mem_rest {l : Literal} (h : l ∈ r.body.filter fun l => !l.isJoinable) :
    l.isJoinable = false := by
  simpa using (List.mem_filter.1 h).2

/-- The joins of a planned body stand in the chosen order. -/
theorem filter_isJoinable_plan (searches : planner.Searches r) :
    (planner.plan r).body.filter Literal.isJoinable =
      (JoinOrder.chosen (r.body.filter Literal.isJoinable)).1 :=
  (merges_plan searches).filter_isJoinable (fun _ => isJoinable_of_mem_chosen)
    fun _ => not_isJoinable_of_mem_rest

/-- A planned body is searched again. -/
theorem Searches.plan (searches : planner.Searches r) : planner.Searches (planner.plan r) := by
  have perm := (planner.plan_perm r).2
  obtain ⟨reorder, several, few⟩ := searches
  refine ⟨reorder, ?_, ?_⟩
  · rw [perm.length_eq]
    exact several
  · rw [(perm.filter _).length_eq]
    exact few

/-- **The search is optimal.** Of a body that is searched all orders of its joins are scored, and the
planned body has them in the lexicographically first order, by their positions, among those of the
highest score. -/
theorem run_optimal (searches : planner.Searches r) :
    let joins := r.body.filter Literal.isJoinable
    let found := planner.run r
    found.paths = joins.length.factorial ∧ found.inputScore = JoinOrder.score joins ∧
      found.inputScore ≤ found.chosenScore ∧
      ∃ order : List Nat, order.Perm (List.range joins.length) ∧
        found.rule.body.filter Literal.isJoinable = JoinOrder.arrange joins order ∧
        found.chosenScore = JoinOrder.score (JoinOrder.arrange joins order) ∧
        ∀ other : List Nat, other.Perm (List.range joins.length) →
          JoinOrder.score (JoinOrder.arrange joins other) ≤ found.chosenScore ∧
          (JoinOrder.score (JoinOrder.arrange joins other) = found.chosenScore → order ≤ other) := by
  intro joins found
  obtain ⟨order, perm, chosen, best⟩ := JoinOrder.exists_chosen_eq joins
  have run : found = _ := run_of_searches searches
  have score : found.chosenScore = JoinOrder.score (JoinOrder.arrange joins order) :=
    (congrArg JoinPlan.chosenScore run).trans (congrArg Prod.snd chosen)
  refine ⟨?_, congrArg JoinPlan.inputScore run, ?_, order, perm, ?_, score, ?_⟩
  · exact (congrArg JoinPlan.paths run).trans (JoinOrder.length_allPaths joins)
  · rw [run]
    exact JoinOrder.score_le_chosen (.refl _)
  · exact (filter_isJoinable_plan searches).trans (congrArg Prod.fst chosen)
  · rw [score]
    exact best

/-- Joined as written, the first two literals share no variable. -/
def crossing : Rule :=
  ⟨.ofVars "p" ["X", "Y"],
    [.pos (.ofVars "a" ["X"]), .pos (.ofVars "b" ["Y"]), .pos (.ofVars "c" ["X", "Y"])]⟩

/-- Four of the six orders score highest; the planned body has the first of them. -/
theorem crossing_optimal :
    Searches {} crossing ∧ (run {} crossing).paths = 6 ∧ (run {} crossing).inputScore = 3 ∧
      (run {} crossing).chosenScore = 4 ∧
      (run {} crossing).rule.body = JoinOrder.arrange crossing.body [0, 2, 1] ∧
      ∀ other : List Nat, other.Perm (List.range 3) →
        JoinOrder.score (JoinOrder.arrange crossing.body other) ≤ 4 ∧
        (JoinOrder.score (JoinOrder.arrange crossing.body other) = 4 → [0, 2, 1] ≤ other) := by
  have searches : Searches {} crossing := ⟨rfl, by decide, by decide +kernel⟩
  have body : (run {} crossing).rule.body = JoinOrder.arrange crossing.body [0, 2, 1] := by
    decide +kernel
  have chosen : (run {} crossing).chosenScore = 4 := by decide +kernel
  obtain ⟨paths, input, -, order, perm, kept, -, best⟩ := run_optimal searches
  have joins : crossing.body.filter Literal.isJoinable = crossing.body := by decide +kernel
  rw [joins] at paths input perm kept best
  have first : order = [0, 2, 1] := by
    have listed : order ∈ JoinOrder.orders 3 (List.range 3) := (JoinOrder.mem_orders_iff rfl).2 perm
    have distinct : ∀ o ∈ JoinOrder.orders 3 (List.range 3), JoinOrder.arrange crossing.body o =
        (run {} crossing).rule.body.filter Literal.isJoinable → o = [0, 2, 1] := by decide +kernel
    exact distinct order listed kept.symm
  rw [first, chosen] at best
  exact ⟨searches, paths, input.trans (by decide +kernel), chosen, body, best⟩

/-- **Planning drops no literal and lets none wait needlessly.** -/
theorem plan_placed (planner : JoinPlanner) (r : Rule) :
    (planner.plan r).head = r.head ∧ (planner.plan r).body.Perm r.body ∧
    (planner.Searches r → ∃ placed left : List (Literal × Nat), (placed ++ left).Perm r.body.zipIdx ∧
      (planner.plan r).body = (placed ++ left).map Prod.fst ∧ JoinOrder.Placed [] placed left) := by
  refine ⟨(planner.plan_perm r).1, (planner.plan_perm r).2, fun searches => ?_⟩
  let joins := r.body.zipIdx.filter fun e => e.1.isJoinable
  have hjoins : joins.map Prod.fst = r.body.filter Literal.isJoinable :=
    JoinOrder.map_fst_filter_zipIdx Literal.isJoinable r.body
  have hwaiting := JoinOrder.map_fst_filter_zipIdx (fun l => !l.isJoinable) r.body
  obtain ⟨order, perm, chosen, -⟩ := JoinOrder.exists_chosen_eq (joins.map Prod.fst)
  rw [List.length_map] at perm
  have arranged : (JoinOrder.arrange joins order).Perm joins := JoinOrder.perm_arrange perm
  have named : (JoinOrder.arrange joins order).map Prod.fst =
      (JoinOrder.chosen (r.body.filter Literal.isJoinable)).1 := by
    rw [JoinOrder.map_arrange, ← hjoins, chosen]
  have increasing : r.body.zipIdx.Pairwise fun m m' => m.2 < m'.2 := by
    rw [← List.pairwise_map (f := Prod.snd) (R := (· < ·)), List.zipIdx_map_snd]
    exact List.pairwise_lt_range'
  obtain ⟨placed, left, body, all, prompt⟩ := (merges_plan searches).exists_placed hwaiting named
    (fun e he => (List.mem_filter.1 (arranged.subset he)).2)
    (fun e he => by simpa using (List.mem_filter.1 he).2) (increasing.sublist List.filter_sublist)
  refine ⟨placed, left, ?_, body, prompt⟩
  exact (all.trans (arranged.append_right _)).trans (List.filter_append_perm _ _)

/-- Each step up makes a literal ready that was written before it, and one literal never gets ready. -/
def unlocking : Rule :=
  ⟨.ofVars "p" ["Z"], [.pos (.new "LESS" [.var "Z", .int 10]), .neg (.ofVars "gone" ["W"]),
    .pos (.new "ADD" [.var "Y", .int 1, .var "Z"]), .pos (.new "ADD" [.var "X", .int 1, .var "Y"]),
    .neg (.ofVars "seen" ["X"]), .pos (.ofVars "n" ["X"]), .pos (.ofVars "m" ["V"])]⟩

theorem unlocking_placed :
    Searches {} unlocking ∧
      (plan {} unlocking).body = JoinOrder.arrange unlocking.body [5, 3, 2, 0, 4, 6, 1] ∧
      ∃ placed left : List (Literal × Nat), (placed ++ left).Perm unlocking.body.zipIdx ∧
        (plan {} unlocking).body = (placed ++ left).map Prod.fst ∧ JoinOrder.Placed [] placed left := by
  have searches : Searches {} unlocking := ⟨rfl, by decide, by decide +kernel⟩
  exact ⟨searches, by decide +kernel, (plan_placed {} unlocking).2.2 searches⟩

/-- **Planning a planned rule changes nothing.** -/
theorem plan_plan (planner : JoinPlanner) (r : Rule) :
    planner.plan (planner.plan r) = planner.plan r ∧
      (planner.run (planner.plan r)).reordered = false ∧
      (planner.run (planner.plan r)).inputScore = (planner.run (planner.plan r)).chosenScore := by
  by_cases searches : planner.Searches r
  · have again := (merges_plan searches).again (fun _ => isJoinable_of_mem_chosen)
      fun _ => not_isJoinable_of_mem_rest
    -- The second search is given the order that the first one chose.
    have run := run_of_searches searches.plan
    simp only [filter_isJoinable_plan searches, JoinOrder.chosen_chosen] at run
    rw [JoinOrder.interleave, ← JoinOrder.merges_iff.1 again] at run
    refine ⟨?_, ?_, ?_⟩
    · show (planner.run (planner.plan r)).rule = _
      rw [run]
    · rw [run]
      simp
    · rw [run]
      exact (JoinOrder.chosen_mem _).2.symm
  · rw [plan_of_not_searches searches, run_of_not_searches searches]
    exact ⟨plan_of_not_searches searches, rfl, rfl⟩

end JoinPlanner

end Datalog
