import Mathlib.Data.List.Sublists
import Datalog.Proofs.JoinPlans

/-!
# Safe rules have an order that compiles

The variables that a body binds are the least set that has those of the positive stored literals and
those of every positive builtin that is ready within it (`Rule.Binds`); a rule is safe when what it
needs is bound in this sense (`Rule.Safe`). No order of the body is mentioned, and validation decides
just that (`Rule.validate_eq_ok_iff`).

To compile, a rule needs each literal ready where it stands (`Literal.Ordered`). The planner defers
only what is not ready yet and takes it up as soon as it is; so it leaves nothing of a safe rule, and
a planned safe rule compiles (`JoinPlanner.compile_plan`). Conversely what an order binds, the body
binds; so a rule is safe exactly when some order of its body compiles (`Rule.validate_exact`).
-/

namespace Datalog

/-! ### Literals that are ready -/

/-- With more variables bound, fewer arguments are unbound. -/
theorem Atom.unboundPositions_sublist (a : Atom) {S T : List String} (more : ∀ x ∈ S, x ∈ T) :
    (a.unboundPositions T).Sublist (a.unboundPositions S) := by
  unfold unboundPositions
  refine List.Sublist.map _ (List.monotone_filter_right _ fun e => ?_)
  simp only [List.any_eq_true, decide_eq_true_eq]
  rintro ⟨x, hx, unbound⟩
  exact ⟨x, hx, fun bound => unbound (more x bound)⟩

/-- A builtin can be applied: every argument is bound, or it computes the one that is not. -/
def Builtin.Ready (S : List String) (e : BuiltinLiteral) : Prop :=
  e.1.mode e.2 S = .check ∨ ∃ x, e.1.mode e.2 S = .bind x

theorem Builtin.Ready.mono {S T : List String} {e : BuiltinLiteral} (more : ∀ x ∈ S, x ∈ T)
    (ready : Ready S e) : Ready T e := by
  have fewer := e.2.unboundPositions_sublist more
  unfold Ready mode at ready ⊢
  cases unbound : e.2.unboundPositions S with
  | nil =>
    rw [unbound] at fewer
    rw [List.sublist_nil.1 fewer]
    exact .inl rfl
  | cons i is =>
    cases is with
    | nil =>
      rw [unbound] at ready fewer
      rcases List.sublist_singleton.1 fewer with none | same
      · rw [none]
        exact .inl rfl
      · rw [same]
        exact ready
    | cons j js =>
      rw [unbound] at ready
      rcases ready with check | ⟨x, bind⟩
      · cases check
      · cases bind

theorem Builtin.ready_of_bound {S : List String} {e : BuiltinLiteral}
    (bound : ∀ x ∈ e.2.varNames, x ∈ S) : Ready S e :=
  .inl (mode_eq_check_iff.2 (Atom.unboundPositions_eq_nil_iff.2 bound))

namespace JoinOrder

theorem placeable_iff_ready {l : Literal} {b : Builtin} (pos : l.positive = true)
    (builtin : l.builtin? = some b) {S : List String} :
    placeable l S = true ↔ Builtin.Ready S (b, l.atom) := by
  unfold placeable Builtin.Ready
  rw [pos, builtin]
  dsimp only
  cases b.mode l.atom S <;> simp

theorem placeable_iff_bound {l : Literal} (other : l.positive = false ∨ l.builtin? = none)
    {S : List String} : placeable l S = true ↔ ∀ x ∈ l.varNames, x ∈ S := by
  have unbound : placeable l S = (l.atom.unboundPositions S).isEmpty := by
    unfold placeable
    rcases other with neg | stored
    · rw [neg]
    · rw [stored]
      split <;> simp_all
  rw [unbound, List.isEmpty_iff]
  exact Atom.unboundPositions_eq_nil_iff

/-- A literal that can be placed can be placed when more variables are bound. -/
theorem placeable_mono {l : Literal} {S T : List String} (more : ∀ x ∈ S, x ∈ T)
    (h : placeable l S = true) : placeable l T = true := by
  by_cases other : l.positive = false ∨ l.builtin? = none
  · rw [placeable_iff_bound other] at h ⊢
    exact fun x hx => more x (h x hx)
  · simp only [not_or, Bool.not_eq_false, ← ne_eq, Option.ne_none_iff_exists'] at other
    obtain ⟨pos, b, builtin⟩ := other
    rw [placeable_iff_ready pos builtin] at h ⊢
    exact h.mono more

end JoinOrder

namespace Literal

/-- The literal can be evaluated when the variables of `S` have values. -/
def ReadyIn (S : List String) (l : Literal) : Prop :=
  l.isJoinable = true ∨ JoinOrder.placeable l S = true

theorem ReadyIn.mono {l : Literal} {S T : List String} (more : ∀ x ∈ S, x ∈ T) (h : l.ReadyIn S) :
    l.ReadyIn T := h.imp id (JoinOrder.placeable_mono more)

/-- The literals can be evaluated one after the other, starting with values for `S`. -/
def Ordered : List String → List Literal → Prop
  | _, [] => True
  | S, l :: ls => l.ReadyIn S ∧ Ordered (S ++ JoinOrder.bindings l) ls

theorem Ordered.mono {ls : List Literal} {S T : List String} (more : ∀ x ∈ S, x ∈ T)
    (h : Ordered S ls) : Ordered T ls := by
  induction ls generalizing S T with
  | nil => trivial
  | cons l ls ih =>
    refine ⟨h.1.mono more, ih (fun x hx => ?_) h.2⟩
    rw [List.mem_append] at hx ⊢
    exact hx.imp (more x) id

end Literal

/-! ### What a body binds -/

namespace Rule

/-- The variables that the body binds, whatever its order. -/
inductive Binds (r : Rule) : String → Prop
  | joined {l : Literal} {x : String} (member : l ∈ r.body) (joinable : l.isJoinable = true)
      (occurs : x ∈ l.varNames) : Binds r x
  | builtin {l : Literal} {S : List String} {x : String} (member : l ∈ r.body)
      (pos : l.positive = true) (bound : ∀ y ∈ S, Binds r y) (ready : JoinOrder.placeable l S = true)
      (occurs : x ∈ l.varNames) : Binds r x

/-- The rule has values for all that it needs: every positive builtin gets ready, and the variables
of negated literals and of the head are bound. -/
structure Safe (r : Rule) : Prop where
  ready : ∀ l ∈ r.body, l.positive = true → ∃ S, (∀ y ∈ S, r.Binds y) ∧ l.ReadyIn S
  negated : ∀ l ∈ r.body, l.positive = false → ∀ x ∈ l.varNames, r.Binds x
  head : ∀ x ∈ r.head.varNames, r.Binds x

theorem Binds.of_subset {r r' : Rule} (body : ∀ l ∈ r.body, l ∈ r'.body) {x : String}
    (h : r.Binds x) : r'.Binds x := by
  induction h with
  | joined member joinable occurs => exact .joined (body _ member) joinable occurs
  | builtin member pos _ ready occurs ih => exact .builtin (body _ member) pos ih ready occurs

/-- Safety does not depend on the order of the body. -/
theorem Safe.of_perm {r r' : Rule} (head : r'.head = r.head) (perm : r'.body.Perm r.body)
    (safe : r.Safe) : r'.Safe := by
  have binds {x : String} (h : r.Binds x) : r'.Binds x := h.of_subset fun l hl => perm.mem_iff.2 hl
  refine ⟨fun l hl pos => ?_, fun l hl neg x hx => ?_, fun x hx => ?_⟩
  · obtain ⟨S, bound, ready⟩ := safe.ready l (perm.mem_iff.1 hl) pos
    exact ⟨S, fun y hy => binds (bound y hy), ready⟩
  · exact binds (safe.negated l (perm.mem_iff.1 hl) neg x hx)
  · rw [head] at hx
    exact binds (safe.head x hx)

end Rule

/-! ### Validation -/

namespace Safety

variable {bound bound' : List String} {waiting waiting' : List BuiltinLiteral}

/-- The variables that hold of `P` stay so when a builtin that is ready binds more. -/
def ClosedFor (P : String → Prop) (waiting : List BuiltinLiteral) : Prop :=
  ∀ e ∈ waiting, ∀ S, (∀ y ∈ S, P y) → Builtin.Ready S e → ∀ x ∈ e.2.varNames, P x

/-- What builtins that wait become in passes over them: those that are dropped have their variables
bound, and nothing else gets bound than such variables. -/
structure Settles (bound : List String) (waiting : List BuiltinLiteral)
    (s : List String × List BuiltinLiteral) : Prop where
  sublist : s.2.Sublist waiting
  grown : ∀ x ∈ bound, x ∈ s.1
  dropped : ∀ e ∈ waiting, e ∈ s.2 ∨ ∀ x ∈ e.2.varNames, x ∈ s.1
  sound : ∀ P, ClosedFor P waiting → (∀ x ∈ bound, P x) → ∀ x ∈ s.1, P x

/-- A builtin in the mode `bind` binds a variable of its own, and then all of them are bound. -/
theorem mem_of_mode_bind {b : Builtin} {a : Atom} {x : String} (mode : b.mode a bound = .bind x) :
    x ∈ a.varNames ∧ ∀ y ∈ a.varNames, y ∈ x :: bound := by
  obtain ⟨pre, post, binds⟩ := Builtin.bindsAt_of_mode mode
  have names (y : String) : y ∈ a.varNames ↔ y = x ∨ ∃ t ∈ pre ++ post, y ∈ t.occurrences := by
    rw [Atom.mem_varNames, binds.terms]
    simp [Term.occurrences, or_and_right, exists_or, or_left_comm]
  refine ⟨(names x).2 (.inl rfl), fun y hy => ?_⟩
  rcases (names y).1 hy with rfl | ⟨t, ht, occurs⟩
  · exact List.mem_cons_self
  · exact List.mem_cons_of_mem _ (binds.others t ht y occurs)

theorem Settles.trans {s s' : List String × List BuiltinLiteral} (first : Settles bound waiting s)
    (second : Settles s.1 s.2 s') : Settles bound waiting s' where
  sublist := second.sublist.trans first.sublist
  grown x hx := second.grown x (first.grown x hx)
  dropped e he := by
    rcases first.dropped e he with kept | done
    · exact second.dropped e kept
    · exact .inr fun x hx => second.grown x (done x hx)
  sound P closed holds :=
    second.sound P (fun e he => closed e (first.sublist.subset he)) (first.sound P closed holds)

theorem pass_settles (bound : List String) (waiting : List BuiltinLiteral) :
    Settles bound waiting (pass bound waiting) := by
  induction waiting generalizing bound with
  | nil => exact ⟨.refl _, fun _ => id, fun _ he => .inl he, fun _ _ holds => holds⟩
  | cons e rest ih =>
    obtain ⟨b, a⟩ := e
    rw [pass]
    split
    · next mode =>
      have settles := ih bound
      refine ⟨settles.sublist.cons _, settles.grown, List.forall_mem_cons.2 ⟨.inr fun x hx => ?_,
        settles.dropped⟩, fun P closed => settles.sound P fun e he => closed e (List.mem_cons_of_mem _ he)⟩
      exact settles.grown x (Atom.unboundPositions_eq_nil_iff.1 (Builtin.mode_eq_check_iff.1 mode) x hx)
    · next y mode =>
      have settles := ih (y :: bound)
      obtain ⟨own, all⟩ := mem_of_mode_bind mode
      refine ⟨settles.sublist.cons _, fun x hx => settles.grown x (List.mem_cons_of_mem _ hx),
        List.forall_mem_cons.2 ⟨.inr fun x hx => settles.grown x (all x hx), settles.dropped⟩,
        fun P closed holds => settles.sound P (fun e he => closed e (List.mem_cons_of_mem _ he)) ?_⟩
      have ready : Builtin.Ready bound (b, a) := .inr ⟨y, mode⟩
      exact List.forall_mem_cons.2 ⟨closed _ List.mem_cons_self bound holds ready y own, holds⟩
    · have settles := ih bound
      refine ⟨settles.sublist.cons_cons _, settles.grown, List.forall_mem_cons.2
        ⟨.inl List.mem_cons_self, fun e he => ?_⟩,
        fun P closed => settles.sound P fun e he => closed e (List.mem_cons_of_mem _ he)⟩
      exact (settles.dropped e he).imp (List.mem_cons_of_mem _) id

theorem settle_settles (n : Nat) (bound : List String) (waiting : List BuiltinLiteral) :
    Settles bound waiting (settle n bound waiting) := by
  induction n generalizing bound waiting with
  | zero => exact ⟨.refl _, fun _ => id, fun _ he => .inl he, fun _ _ holds => holds⟩
  | succ n ih =>
    rw [settle]
    dsimp only
    split
    · exact (pass_settles bound waiting).trans (ih _ _)
    · exact pass_settles bound waiting

/-- When a pass drops nothing, no builtin was ready. -/
theorem not_ready_of_pass (h : ¬(pass bound waiting).2.length < waiting.length) :
    (pass bound waiting).1 = bound ∧ ∀ e ∈ waiting, ¬Builtin.Ready bound e := by
  induction waiting generalizing bound with
  | nil => exact ⟨rfl, by simp⟩
  | cons e rest ih =>
    obtain ⟨b, a⟩ := e
    have shorter (bound : List String) := (pass_settles bound rest).sublist.length_le
    rw [pass] at h ⊢
    split at h
    · exact absurd (Nat.lt_succ_of_le (shorter bound)) h
    · exact absurd (Nat.lt_succ_of_le (shorter _)) h
    · next check bind =>
      simp only [List.length_cons, Nat.add_lt_add_iff_right] at h
      obtain ⟨same, stuck⟩ := ih h
      refine ⟨same, List.forall_mem_cons.2 ⟨?_, stuck⟩⟩
      rintro (mode | ⟨x, mode⟩)
      · exact check mode
      · exact bind x mode

/-- After enough passes no builtin that still waits is ready. -/
theorem not_ready_of_settle {n : Nat} (enough : waiting.length < n) :
    ∀ e ∈ (settle n bound waiting).2, ¬Builtin.Ready (settle n bound waiting).1 e := by
  induction n generalizing bound waiting with
  | zero => exact absurd enough (Nat.not_lt_zero _)
  | succ n ih =>
    rw [settle]
    dsimp only
    split
    · next fewer => exact ih (by omega)
    · next same =>
      obtain ⟨kept, stuck⟩ := not_ready_of_pass same
      intro e he
      rw [kept]
      exact stuck e ((pass_settles bound waiting).sublist.subset he)

/-- The literal of a positive builtin. -/
theorem mem_builtins {r : Rule} {e : BuiltinLiteral} :
    e ∈ r.builtins ↔
      ∃ l ∈ r.body, l.positive = true ∧ l.builtin? = some e.1 ∧ l.atom = e.2 := by
  obtain ⟨b, a⟩ := e
  simp only [Rule.builtins, Rule.positiveBody, List.mem_filterMap, List.mem_filter,
    Option.map_eq_some_iff, Prod.mk.injEq]
  constructor
  · rintro ⟨l, ⟨hl, pos⟩, b', hb, rfl, rfl⟩
    exact ⟨l, hl, pos, hb, rfl⟩
  · rintro ⟨l, hl, pos, hb, rfl⟩
    exact ⟨l, ⟨hl, pos⟩, b, hb, rfl, rfl⟩

/-- The variables that validation finds are those that the body binds. -/
theorem mem_bindings_iff {r : Rule} {x : String} : x ∈ (bindings r).1 ↔ r.Binds x := by
  have settles : Settles r.joinedVariables r.builtins (bindings r) := settle_settles _ _ _
  constructor
  · refine settles.sound r.Binds (fun e he S bound ready y hy => ?_) (fun y hy => ?_) x
    · obtain ⟨l, hl, pos, builtin, atom⟩ := mem_builtins.1 he
      have placeable : JoinOrder.placeable l S = true := by
        rw [JoinOrder.placeable_iff_ready pos builtin, atom]
        exact ready
      exact .builtin hl pos bound placeable (by rw [Literal.varNames, atom]; exact hy)
    · obtain ⟨l, hl, hy⟩ := List.mem_flatMap.1 hy
      obtain ⟨member, joinable⟩ := List.mem_filter.1 hl
      exact .joined member joinable hy
  · intro h
    have joined {l : Literal} {y : String} (member : l ∈ r.body) (joinable : l.isJoinable = true)
        (occurs : y ∈ l.varNames) : y ∈ (bindings r).1 :=
      settles.grown y (List.mem_flatMap.2 ⟨l, List.mem_filter.2 ⟨member, joinable⟩, occurs⟩)
    induction h with
    | joined member joinable occurs => exact joined member joinable occurs
    | @builtin l S y member pos _ ready occurs ih =>
      cases builtin : l.builtin? with
      | none => exact joined member (Literal.isJoinable_iff.2 ⟨builtin, pos⟩) occurs
      | some b =>
        rw [JoinOrder.placeable_iff_ready pos builtin] at ready
        have listed : (b, l.atom) ∈ r.builtins := mem_builtins.2 ⟨l, member, pos, builtin, rfl⟩
        rcases settles.dropped _ listed with waits | done
        · exact absurd (ready.mono ih) (not_ready_of_settle (Nat.lt_succ_self _) _ waits)
        · exact done y occurs

/-- Validation leaves a builtin when the body does not make it ready. -/
theorem bindings_eq_nil_iff {r : Rule} :
    (bindings r).2 = [] ↔
      ∀ l ∈ r.body, l.positive = true → ∃ S, (∀ y ∈ S, r.Binds y) ∧ l.ReadyIn S := by
  have settles : Settles r.joinedVariables r.builtins (bindings r) := settle_settles _ _ _
  constructor
  · intro none l hl pos
    refine ⟨(bindings r).1, fun y => mem_bindings_iff.1, ?_⟩
    cases builtin : l.builtin? with
    | none => exact .inl (Literal.isJoinable_iff.2 ⟨builtin, pos⟩)
    | some b =>
      right
      rw [JoinOrder.placeable_iff_ready pos builtin]
      rcases settles.dropped (b, l.atom) (mem_builtins.2 ⟨l, hl, pos, builtin, rfl⟩) with waits | done
      · rw [none] at waits
        cases waits
      · exact Builtin.ready_of_bound done
  · intro ready
    refine List.eq_nil_iff_forall_not_mem.2 fun e waits => ?_
    obtain ⟨l, hl, pos, builtin, atom⟩ := mem_builtins.1 (settles.sublist.subset waits)
    obtain ⟨S, bound, joinable | placeable⟩ := ready l hl pos
    · rw [Literal.isJoinable_iff, builtin] at joinable
      cases joinable.1
    · rw [JoinOrder.placeable_iff_ready pos builtin, atom] at placeable
      refine not_ready_of_settle (Nat.lt_succ_self _) e waits (placeable.mono fun y hy => ?_)
      exact mem_bindings_iff.2 (bound y hy)

end Safety

namespace Rule

theorem firstUnboundNegated?_eq_none_iff {r : Rule} {bound : List String} :
    r.firstUnboundNegated? bound = none ↔
      ∀ l ∈ r.body, l.positive = false → ∀ x ∈ l.varNames, x ∈ bound := by
  simp only [firstUnboundNegated?, negatedBody, List.findSome?_eq_none_iff, List.mem_filter,
    Option.map_eq_none_iff, Atom.firstUnbound?_eq_none_iff, Bool.not_eq_true', and_imp]
  rfl

/-- **Validation decides safety.** -/
theorem validate_eq_ok_iff {r : Rule} : r.validate = .ok () ↔ r.Safe := by
  have found := Safety.bindings_eq_nil_iff (r := r)
  have bound {x : String} := Safety.mem_bindings_iff (r := r) (x := x)
  unfold validate
  split
  · next bindings =>
    rw [bindings] at found
    refine iff_of_false (by simp) fun safe => ?_
    cases found.2 safe.ready
  · next names bindings =>
    rw [bindings] at found bound
    have ready := found.1 rfl
    split
    · next x a unbound =>
      refine iff_of_false (by simp) fun safe => ?_
      have none : r.firstUnboundNegated? names = none :=
        firstUnboundNegated?_eq_none_iff.2 fun l hl neg x hx => bound.2 (safe.negated l hl neg x hx)
      rw [unbound] at none
      cases none
    · next negated =>
      split
      · next x unbound =>
        refine iff_of_false (by simp) fun safe => ?_
        have none : r.head.firstUnbound? names = none :=
          Atom.firstUnbound?_eq_none_iff.2 fun x hx => bound.2 (safe.head x hx)
        rw [unbound] at none
        cases none
      · next head =>
        refine iff_of_true rfl ⟨ready, fun l hl neg x hx => ?_, fun x hx => ?_⟩
        · exact bound.1 (firstUnboundNegated?_eq_none_iff.1 negated l hl neg x hx)
        · exact bound.1 (Atom.firstUnbound?_eq_none_iff.1 head x hx)

/-! ### Orders that compile -/

/-- When what is left of the body of a safe rule is not ready after the rest of it, nothing is left. -/
theorem Safe.eq_nil_of_stuck {r : Rule} (safe : r.Safe) {front rest : List Literal}
    (perm : (front ++ rest).Perm r.body)
    (stuck : ∀ l ∈ rest, ¬l.ReadyIn (front.flatMap JoinOrder.bindings)) : rest = [] := by
  have placed {l : Literal} (hl : l ∈ r.body)
      (ready : l.ReadyIn (front.flatMap JoinOrder.bindings)) : l ∈ front := by
    rcases List.mem_append.1 (perm.mem_iff.2 hl) with before | after
    · exact before
    · exact absurd ready (stuck l after)
  have bound {x : String} (h : r.Binds x) : x ∈ front.flatMap JoinOrder.bindings := by
    have own {l : Literal} {y : String} (hl : l ∈ front) (pos : l.positive = true)
        (hy : y ∈ l.varNames) : y ∈ front.flatMap JoinOrder.bindings :=
      List.mem_flatMap.2 ⟨l, hl, by simpa [JoinOrder.bindings, pos] using hy⟩
    induction h with
    | joined member joinable occurs =>
      exact own (placed member (.inl joinable)) (Literal.isJoinable_iff.1 joinable).2 occurs
    | builtin member pos _ ready occurs ih =>
      exact own (placed member (.inr (JoinOrder.placeable_mono ih ready))) pos occurs
  refine List.eq_nil_iff_forall_not_mem.2 fun l hl => ?_
  have member : l ∈ r.body := perm.mem_iff.1 (List.mem_append_right _ hl)
  refine stuck l hl ?_
  cases pos : l.positive with
  | true =>
    obtain ⟨S, within, ready⟩ := safe.ready l member pos
    exact ready.mono fun y hy => bound (within y hy)
  | false =>
    exact .inr ((JoinOrder.placeable_iff_bound (.inl pos)).2 fun x hx =>
      bound (safe.negated l member pos x hx))

/-- What a body binds are variables of its positive literals. -/
theorem Binds.mem {r : Rule} {x : String} (h : r.Binds x) : x ∈ r.body.flatMap JoinOrder.bindings := by
  have own {l : Literal} (hl : l ∈ r.body) (pos : l.positive = true) (hx : x ∈ l.varNames) :
      x ∈ r.body.flatMap JoinOrder.bindings :=
    List.mem_flatMap.2 ⟨l, hl, by simpa [JoinOrder.bindings, pos] using hx⟩
  cases h with
  | joined member joinable occurs => exact own member (Literal.isJoinable_iff.1 joinable).2 occurs
  | builtin member pos _ _ occurs => exact own member pos occurs

end Rule

namespace Operator

/-- A literal has an operator where it is ready. -/
theorem exists_ofLiteral_iff {r : Rule} {S : List String} {l : Literal} :
    (∃ op, ofLiteral r S l = .ok op) ↔ l.ReadyIn S := by
  unfold Literal.ReadyIn
  rw [Literal.isJoinable_iff]
  cases builtin : l.builtin? with
  | none =>
    cases pos : l.positive with
    | true => simp [ofLiteral, builtin, pos]
    | false =>
      rw [JoinOrder.placeable_iff_bound (.inl pos)]
      show _ ↔ _ ∨ ∀ x ∈ l.atom.varNames, x ∈ S
      rw [← Atom.firstUnbound?_eq_none_iff]
      cases unbound : l.atom.firstUnbound? S <;> simp [ofLiteral, ofAntijoin, builtin, pos, unbound]
  | some b =>
    cases pos : l.positive with
    | true =>
      rw [JoinOrder.placeable_iff_ready pos builtin, Builtin.Ready]
      cases mode : b.mode l.atom S <;> simp [ofLiteral, ofBuiltin, builtin, pos, mode]
    | false =>
      rw [JoinOrder.placeable_iff_bound (.inl pos)]
      show _ ↔ _ ∨ ∀ x ∈ l.atom.varNames, x ∈ S
      rw [← Atom.unboundPositions_eq_nil_iff, ← Builtin.mode_eq_check_iff (b := b)]
      cases mode : b.mode l.atom S <;> simp [ofLiteral, ofBuiltin, builtin, pos, mode]

theorem exists_ofHead_iff {r : Rule} {S : List String} :
    (∃ op, ofHead r S = .ok op) ↔ ∀ x ∈ r.head.varNames, x ∈ S := by
  have unbound : (Template.mk r.head.terms S).unboundVariables = [] ↔ ∀ x ∈ r.head.varNames, x ∈ S := by
    simp [Template.unboundVariables, Atom.varNames]
  rw [← unbound]
  unfold ofHead
  dsimp only
  split
  · next x xs found => simp [found]
  · next found => simp [found]

end Operator

namespace Rule

/-- A body has operators when each literal is ready where it stands and the head gets its values. -/
theorem exists_operatorsFrom_iff {r : Rule} {S : List String} {ls : List Literal} :
    (∃ ops, r.operatorsFrom S ls = .ok ops) ↔
      Literal.Ordered S ls ∧ ∀ x ∈ r.head.varNames, x ∈ S ++ ls.flatMap JoinOrder.bindings := by
  induction ls generalizing S with
  | nil =>
    rw [List.flatMap_nil, List.append_nil, ← Operator.exists_ofHead_iff]
    constructor
    · rintro ⟨ops, h⟩
      obtain ⟨op, last, -⟩ := bind_eq_ok_iff.1 h
      exact ⟨trivial, op, last⟩
    · rintro ⟨-, op, last⟩
      exact ⟨[op], bind_eq_ok_iff.2 ⟨op, last, rfl⟩⟩
  | cons l ls ih =>
    have schema {op : Operator} (first : Operator.ofLiteral r S l = .ok op) (x : String) :
        x ∈ op.schema ↔ x ∈ S ++ JoinOrder.bindings l := by
      rw [List.mem_append]
      exact (Operator.forLiteral_of_ofLiteral first).mem_schema x
    rw [List.flatMap_cons, ← List.append_assoc, Literal.Ordered, ← Operator.exists_ofLiteral_iff (r := r)]
    constructor
    · rintro ⟨ops, h⟩
      obtain ⟨op, first, h⟩ := bind_eq_ok_iff.1 h
      obtain ⟨ops', rest, -⟩ := bind_eq_ok_iff.1 h
      obtain ⟨ordered, head⟩ := ih.1 ⟨ops', rest⟩
      refine ⟨⟨⟨op, first⟩, ordered.mono fun x => (schema first x).1⟩, fun x hx => ?_⟩
      exact List.mem_append.2 ((List.mem_append.1 (head x hx)).imp (schema first x).1 id)
    · rintro ⟨⟨⟨op, first⟩, ordered⟩, head⟩
      obtain ⟨ops', rest⟩ := ih.2 ⟨ordered.mono fun x => (schema first x).2, fun x hx =>
        List.mem_append.2 ((List.mem_append.1 (head x hx)).imp (schema first x).2 id)⟩
      exact ⟨op :: ops', bind_eq_ok_iff.2 ⟨op, first, bind_eq_ok_iff.2 ⟨ops', rest, rfl⟩⟩⟩

/-- **A rule compiles when it is safe and each literal of its body is ready where it stands.** -/
theorem exists_compile_iff {r : Rule} :
    (∃ c, r.compile = .ok c) ↔ r.Safe ∧ Literal.Ordered [] r.body := by
  rw [← validate_eq_ok_iff]
  constructor
  · rintro ⟨c, h⟩
    obtain ⟨u, valid, h⟩ := bind_eq_ok_iff.1 h
    obtain ⟨ops, operators, -⟩ := bind_eq_ok_iff.1 h
    exact ⟨valid, (exists_operatorsFrom_iff.1 ⟨ops, operators⟩).1⟩
  · rintro ⟨valid, ordered⟩
    obtain ⟨ops, operators⟩ := exists_operatorsFrom_iff.2
      ⟨ordered, fun x hx => ((validate_eq_ok_iff.1 valid).head x hx).mem⟩
    exact ⟨⟨r, ops⟩, bind_eq_ok_iff.2 ⟨(), valid, bind_eq_ok_iff.2 ⟨ops, operators, rfl⟩⟩⟩

end Rule

/-! ### Planned bodies -/

namespace JoinOrder

theorem bindings_of_isJoinable {l : Literal} (joinable : l.isJoinable = true) :
    bindings l = l.varNames := by
  rw [bindings, (Literal.isJoinable_iff.1 joinable).2]
  rfl

/-- Merging gives an order of all that ever gets ready, followed by what does not. -/
theorem Merges.greedy {bound : List String} {pending ls body : List Literal}
    (merges : Merges bound pending ls body) (joinable : ∀ l ∈ ls, l.isJoinable = true) :
    ∃ front rest, body = front ++ rest ∧ Literal.Ordered bound front ∧
      ∀ l ∈ rest, l ∈ pending ∧ placeable l (bound ++ front.flatMap bindings) = false := by
  induction merges with
  | place next _ ih =>
    obtain ⟨front, rest, rfl, ordered, stuck⟩ := ih joinable
    refine ⟨_ :: front, rest, rfl, ⟨.inr (placeable_of_nextReady? next), ordered⟩, fun m hm => ?_⟩
    obtain ⟨waits, unplaced⟩ := stuck m hm
    rw [List.flatMap_cons, ← List.append_assoc]
    exact ⟨(perm_of_nextReady? next).subset (List.mem_cons_of_mem _ waits), unplaced⟩
  | join _ _ ih =>
    obtain ⟨first, others⟩ := List.forall_mem_cons.1 joinable
    obtain ⟨front, rest, rfl, ordered, stuck⟩ := ih others
    rw [← bindings_of_isJoinable first] at ordered stuck
    refine ⟨_ :: front, rest, rfl, ⟨.inl first, ordered⟩, fun m hm => ?_⟩
    rw [List.flatMap_cons, ← List.append_assoc]
    exact stuck m hm
  | done none =>
    refine ⟨[], _, rfl, trivial, fun m hm => ⟨hm, ?_⟩⟩
    rw [List.flatMap_nil, List.append_nil]
    exact nextReady?_eq_none_iff.1 none m hm

end JoinOrder

namespace JoinPlanner

/-- **Planning makes safe rules compile.** -/
theorem compile_plan {planner : JoinPlanner} {r : Rule} (valid : r.validate = .ok ())
    (searches : planner.Searches r ∨ r.body.length ≤ 1) : ∃ c, (planner.plan r).compile = .ok c := by
  obtain ⟨head, perm⟩ := planner.plan_perm r
  have safe : (planner.plan r).Safe := (Rule.validate_eq_ok_iff.1 valid).of_perm head perm
  have greedy : ∃ front rest, (planner.plan r).body = front ++ rest ∧ Literal.Ordered [] front ∧
      ∀ l ∈ rest, ¬l.ReadyIn (front.flatMap JoinOrder.bindings) := by
    by_cases searched : planner.Searches r
    · obtain ⟨order, joins, planned⟩ := plan_of_searches searched
      have joinable (l : Literal) (hl : l ∈ order) : l.isJoinable = true :=
        (List.mem_filter.1 (joins.mem_iff.1 hl)).2
      obtain ⟨front, rest, merged, ordered, stuck⟩ :=
        (JoinOrder.merges_interleaveFrom [] (r.body.filter fun l => !l.isJoinable) order).greedy joinable
      refine ⟨front, rest, by rw [planned]; exact merged, ordered, fun l hl ready => ?_⟩
      obtain ⟨deferred, unplaced⟩ := stuck l hl
      rcases ready with joinable | placeable
      · simp [joinable] at deferred
      · rw [List.nil_append, placeable] at unplaced
        cases unplaced
    · have short : r.body.length ≤ 1 := searches.resolve_left searched
      rw [plan_of_not_searches searched]
      cases body : r.body with
      | nil => exact ⟨[], [], rfl, trivial, by simp⟩
      | cons l ls =>
        rw [body, List.length_cons] at short
        have alone : ls = [] := List.eq_nil_of_length_eq_zero (by omega)
        subst alone
        by_cases ready : l.ReadyIn []
        · exact ⟨[l], [], rfl, ⟨ready, trivial⟩, by simp⟩
        · exact ⟨[], [l], rfl, trivial, by simpa using ready⟩
  obtain ⟨front, rest, body, ordered, stuck⟩ := greedy
  have none : rest = [] := safe.eq_nil_of_stuck (by rw [body]) stuck
  refine Rule.exists_compile_iff.2 ⟨safe, ?_⟩
  rw [body, none, List.append_nil]
  exact ordered

/-- A planner that reorders makes a safe rule compile, if the body has no more joins than it searches. -/
theorem compile_plan_of_le {planner : JoinPlanner} {r : Rule} (valid : r.validate = .ok ())
    (reorder : planner.reorder = true)
    (few : (r.body.filter Literal.isJoinable).length ≤ planner.maxLiterals) :
    ∃ c, (planner.plan r).compile = .ok c := by
  refine compile_plan valid ?_
  by_cases several : 1 < r.body.length
  · exact .inl ⟨reorder, several, few⟩
  · exact .inr (Nat.not_lt.1 several)

end JoinPlanner

/-! ### Safety through orders -/

namespace Rule

/-- What literals of the body bind one after the other, the body binds; and each of them gets ready
within that. -/
theorem binds_of_ordered {r : Rule} {S : List String} {ls : List Literal}
    (bound : ∀ y ∈ S, r.Binds y) (members : ∀ l ∈ ls, l ∈ r.body) (ordered : Literal.Ordered S ls) :
    (∀ x ∈ S ++ ls.flatMap JoinOrder.bindings, r.Binds x) ∧
      ∀ l ∈ ls, ∃ S', (∀ y ∈ S', r.Binds y) ∧ l.ReadyIn S' := by
  induction ls generalizing S with
  | nil => exact ⟨by simpa using bound, by simp⟩
  | cons l ls ih =>
    obtain ⟨ready, rest⟩ := ordered
    obtain ⟨member, others⟩ := List.forall_mem_cons.1 members
    have own : ∀ x ∈ JoinOrder.bindings l, r.Binds x := by
      intro x hx
      cases pos : l.positive with
      | false => simp [JoinOrder.bindings, pos] at hx
      | true =>
        rw [JoinOrder.bindings, pos, if_pos rfl] at hx
        rcases ready with joinable | placeable
        · exact .joined member joinable hx
        · exact .builtin member pos bound placeable hx
    have more : ∀ x ∈ S ++ JoinOrder.bindings l, r.Binds x := by
      intro x hx
      exact (List.mem_append.1 hx).elim (bound x) (own x)
    obtain ⟨all, later⟩ := ih more others rest
    rw [List.flatMap_cons, ← List.append_assoc]
    exact ⟨all, List.forall_mem_cons.2 ⟨⟨S, bound, ready⟩, later⟩⟩

/-- A rule is safe when some order of its body makes each literal ready where it stands and binds the
variables of the head. -/
theorem Safe.of_ordered {r : Rule} {body : List Literal} (perm : body.Perm r.body)
    (ordered : Literal.Ordered [] body)
    (head : ∀ x ∈ r.head.varNames, x ∈ body.flatMap JoinOrder.bindings) : r.Safe := by
  obtain ⟨bound, ready⟩ : (∀ x ∈ [] ++ body.flatMap JoinOrder.bindings, r.Binds x) ∧ _ :=
    binds_of_ordered (S := []) (by simp) (fun l hl => perm.mem_iff.1 hl) ordered
  refine ⟨fun l hl _ => ready l (perm.mem_iff.2 hl), fun l hl neg x hx => ?_,
    fun x hx => bound x (head x hx)⟩
  obtain ⟨S, within, joinable | placeable⟩ := ready l (perm.mem_iff.2 hl)
  · rw [Literal.isJoinable_iff, neg] at joinable
    cases joinable.2
  · exact within x ((JoinOrder.placeable_iff_bound (.inl neg)).1 placeable x hx)

/-- **Validation is exact.** Whether a rule is accepted does not depend on the order of its body; it is
accepted if and only if some order of the body can be turned into operators; and a planner that
reorders, and searches bodies with as many joins, finds such an order. -/
theorem validate_exact (r : Rule) :
    (∀ body : List Literal, body.Perm r.body →
      (({ r with body } : Rule).validate = .ok () ↔ r.validate = .ok ())) ∧
    (r.validate = .ok () ↔ ∃ body : List Literal, body.Perm r.body ∧
      ∃ ops, ({ r with body } : Rule).operators = .ok ops) ∧
    ∀ planner : JoinPlanner, r.validate = .ok () → planner.reorder = true →
      (r.body.filter Literal.isJoinable).length ≤ planner.maxLiterals →
      ∃ c, (planner.plan r).compile = .ok c := by
  refine ⟨fun body perm => ?_, ⟨fun valid => ?_, ?_⟩, fun planner => JoinPlanner.compile_plan_of_le⟩
  · rw [validate_eq_ok_iff, validate_eq_ok_iff]
    exact ⟨fun safe => Safe.of_perm (r := { r with body }) rfl perm.symm safe,
      fun safe => Safe.of_perm (r := r) rfl perm safe⟩
  · -- A planner that searches bodies of this length finds one.
    let planner : JoinPlanner := { maxLiterals := r.body.length }
    obtain ⟨head, perm⟩ := planner.plan_perm r
    obtain ⟨c, compiled⟩ : ∃ c, (planner.plan r).compile = .ok c :=
      JoinPlanner.compile_plan_of_le valid rfl (List.length_filter_le _ _)
    obtain ⟨-, -, h⟩ := bind_eq_ok_iff.1 compiled
    obtain ⟨ops, operators, -⟩ := bind_eq_ok_iff.1 h
    refine ⟨(planner.plan r).body, perm, ops, ?_⟩
    rw [← head]
    exact operators
  · rintro ⟨body, perm, operators⟩
    obtain ⟨ordered, head⟩ := exists_operatorsFrom_iff.1 operators
    exact validate_eq_ok_iff.2 (.of_ordered perm ordered head)

/-- Two steps up from a number, the second written before the first, and a check of the result. -/
def twoSteps : Rule :=
  ⟨.ofVars "p" ["Z"], [.neg (.new "LESS" [.var "Z", .int 0]),
    .pos (.new "ADD" [.var "Y", .int 1, .var "Z"]), .pos (.ofVars "num" ["X"]),
    .pos (.new "ADD" [.var "X", .int 1, .var "Y"])]⟩

/-- The rule is accepted and does not compile as it is written; planned, it compiles. -/
theorem twoSteps_exact :
    twoSteps.validate = .ok () ∧ ¬(∃ ops, twoSteps.operators = .ok ops) ∧
    ({ twoSteps with body := twoSteps.body.reverse } : Rule).validate = .ok () ∧
    (∃ body : List Literal, body.Perm twoSteps.body ∧
      ∃ ops, ({ twoSteps with body } : Rule).operators = .ok ops) ∧
    ∃ c, (JoinPlanner.plan {} twoSteps).compile = .ok c := by
  obtain ⟨orders, some_order, planned⟩ := validate_exact twoSteps
  have valid : twoSteps.validate = .ok () := by decide +kernel
  have refused : twoSteps.operators.isOk = false := by decide +kernel
  refine ⟨valid, ?_, (orders _ (List.reverse_perm _)).2 valid, some_order.1 valid,
    planned {} valid rfl (by decide +kernel)⟩
  rintro ⟨ops, operators⟩
  rw [operators] at refused
  cases refused

end Rule

end Datalog
