import Datalog.Proofs.DirectorySteps
import Datalog.Proofs.Queries
import Datalog.Proofs.Rejection

/-!
# Well-formed facts, and what fails without them

Facts are well-formed when every tuple is ground and has the arity of its predicate. A safe rule whose
body holds of ground tuples gives ground terms to all variables that its body binds: a stored literal is
an instance that is a tuple, and a builtin that finds its one missing argument finds a ground term
(`Rule.Binds.isGround`). So all tuples of a reasoner over facts in memory that started empty are ground
(`Reasoner.Reached`).

The arities are another matter. An atom comes with a predicate and with terms, and neither an import nor a
rule compares the number of terms with the arity. A tuple of another arity is stored like any other, and
fails every job that reads its predicate from then on. There is no other way to fail than this one and a
refusal; and as long as all facts and heads fit their predicates, there is only the refusal
(`Reasoner.Reached.fails_only_on_arity`).
-/

namespace Datalog

/-! ### Ground instances -/

mutual

/-- An instance of a term is ground when the values of its variables are. -/
theorem Term.isGround_subst_iff (σ : Substitution) : ∀ t : Term,
    (t.subst σ).isGround = true ↔ ∀ x ∈ t.occurrences, (σ x).isGround = true
  | .var x => by simp [subst, occurrences]
  | .const c => by simp [subst, occurrences, isGround]
  | .app f ts => by
    have args := allGround_substList_iff σ ts
    rwa [subst, isGround, occurrences]

/-- The same for a list of terms. -/
theorem Term.allGround_substList_iff (σ : Substitution) : ∀ ts : List Term,
    allGround (substList σ ts) = true ↔ ∀ x ∈ occurrencesList ts, (σ x).isGround = true
  | [] => by simp [substList, occurrencesList]
  | t :: ts => by
    rw [substList, allGround, Bool.and_eq_true, isGround_subst_iff σ t, allGround_substList_iff σ ts,
      occurrencesList, List.forall_mem_append]

end

theorem Tuple.isGround_subst_iff {σ : Substitution} {t : Tuple} :
    (t.subst σ).isGround = true ↔ ∀ x ∈ t.varNames, (σ x).isGround = true := by
  have instances := Term.allGround_substList_iff σ t
  rw [Term.allGround_eq_all, Term.substList_eq_map, Term.occurrencesList_eq_flatMap] at instances
  rw [isGround, subst, instances]
  simp [varNames]

/-! ### What rules derive is ground -/

theorem Term.AreWords.isGround {R : Int64 → Int64 → Int64 → Prop} {a b c : Term}
    (words : AreWords R a b c) : ∀ t ∈ [a, b, c], t.isGround = true := by
  obtain ⟨x, y, z, rfl, rfl, rfl, -⟩ := words
  simp [Term.isGround, Term.int]

/-- Two arguments are the one that is meant and another one, before it or after it. -/
theorem split_of_length_eq_two {α : Type} {pre post : List α} {v : α}
    (two : (pre ++ v :: post).length = 2) :
    (pre = [] ∧ ∃ a, post = [a]) ∨ (∃ a, pre = [a]) ∧ post = [] := by
  rw [List.length_append, List.length_cons] at two
  rcases Nat.eq_zero_or_pos pre.length with none | some
  · exact .inl ⟨List.length_eq_zero_iff.1 none, List.length_eq_one_iff.1 (by omega)⟩
  · exact .inr ⟨List.length_eq_one_iff.1 (by omega), List.length_eq_zero_iff.1 (by omega)⟩

/-- The argument that a builtin can compute is ground if the others are. -/
theorem Builtin.isGround_of_relates {b : Builtin} {pre post : List Term} {v : Term}
    (relates : b.Relates (pre ++ v :: post)) (bindable : b.canBind pre.length = true)
    (others : ∀ t ∈ pre ++ post, t.isGround = true) : v.isGround = true := by
  have member : v ∈ pre ++ v :: post := by simp
  have length := length_of_relates relates
  cases b with
  | notEqual | less | lessEqual | greater | greaterEqual => cases bindable
  | equal =>
    -- Any term may stand here, but it is the other argument.
    rcases split_of_length_eq_two length with ⟨rfl, a, rfl⟩ | ⟨⟨a, rfl⟩, rfl⟩
    · rw [show v = a from relates]
      exact others a (by simp)
    · rw [← show a = v from relates]
      exact others a (by simp)
  | add | subtract | multiply | divide | modulus =>
    generalize pre ++ v :: post = ts at relates member length
    obtain ⟨a, c, d, rfl⟩ := List.length_eq_three.1 length
    exact Term.AreWords.isGround relates v member
  | concat =>
    generalize pre ++ v :: post = ts at relates member length
    obtain ⟨a, c, d, rfl⟩ := List.length_eq_three.1 length
    obtain ⟨s, t, rfl, rfl, rfl⟩ := relates
    revert v
    simp [Term.isGround, Term.str]
  | stringLength | listLength =>
    rcases split_of_length_eq_two length with ⟨rfl, a, rfl⟩ | ⟨⟨a, rfl⟩, rfl⟩
    · cases bindable
    · obtain ⟨s, n, -, rfl, -⟩ := relates
      rfl

namespace Rule

variable {r : Rule} {M : Interpretation} {σ : Substitution}

/-- A rule that fires on ground tuples gives ground terms to the variables that its body binds. -/
theorem Binds.isGround (ground : ∀ p, ∀ t ∈ M p, t.isGround = true) (fires : r.FiresIn M σ)
    {x : String} (binds : r.Binds x) : (σ x).isGround = true := by
  have joined {l : Literal} {x : String} (member : l ∈ r.body) (joinable : l.isJoinable = true)
      (occurs : x ∈ l.varNames) : (σ x).isGround = true := by
    have stored := (Literal.holdsIn_of_isJoinable joinable).1 (fires l member)
    exact Tuple.isGround_subst_iff.1 (ground _ _ stored) x occurs
  induction binds with
  | joined member joinable occurs => exact joined member joinable occurs
  | @builtin l S x member pos _ ready occurs ih =>
    cases builtin : l.builtin? with
    | none => exact joined member (Literal.isJoinable_iff.2 ⟨builtin, pos⟩) occurs
    | some b =>
      rw [JoinOrder.placeable_iff_ready pos builtin] at ready
      have holds := fires l member
      rw [Literal.HoldsIn, builtin, pos] at holds
      rcases ready with check | ⟨y, bind⟩
      · exact ih x (Atom.unboundPositions_eq_nil_iff.1 (Builtin.mode_eq_check_iff.1 check) x occurs)
      · -- All arguments but the variable that the builtin computes are ground by now.
        obtain ⟨pre, post, binds⟩ := Builtin.bindsAt_of_mode bind
        rcases List.mem_cons.1 ((Safety.mem_of_mode_bind bind).2 x occurs) with rfl | bound
        · have related : b.Relates (Tuple.subst σ pre ++ σ x :: Tuple.subst σ post) := by
            rw [← Operator.subst_of_bindsAt binds]
            exact holds
          refine Builtin.isGround_of_relates related ?_ ?_
          · rw [Tuple.length_subst]
            exact binds.bindable
          · intro u hu
            rw [Tuple.subst, Tuple.subst, ← List.map_append] at hu
            obtain ⟨u', hu', rfl⟩ := List.mem_map.1 hu
            exact (Term.isGround_subst_iff σ u').2 fun y hy => ih y (binds.others u' hu' y hy)
        · exact ih x bound

/-- A safe rule derives ground tuples from ground tuples. -/
theorem Safe.isGround_of_derives (safe : r.Safe) (ground : ∀ p, ∀ t ∈ M p, t.isGround = true)
    {t : Tuple} (derives : r.Derives M t) : t.isGround = true := by
  obtain ⟨σ, fires, -, rfl⟩ := derives
  exact Tuple.isGround_subst_iff.2 fun x hx => (safe.head x hx).isGround ground fires

end Rule

theorem CompiledRule.safe_of_compile {r : Rule} {c : CompiledRule} (h : r.compile = .ok c) : r.Safe :=
  (Rule.exists_compile_iff.1 ⟨c, h⟩).1

/-! ### Tuples that rules keep to -/

/-- All ground tuples. -/
def Interpretation.ground : Interpretation := fun _ => {t | t.isGround = true}

/-- All tuples that have the arity of their predicate. -/
def Interpretation.right : Interpretation := fun p => {t | t.arity = p.arity}

/-- From tuples of the interpretation, the rules derive only such tuples, in whatever order a planner puts
their bodies. -/
def Program.KeepsTo (M : Interpretation) (p : Program) : Prop :=
  ∀ rule ∈ p, ∀ planner : JoinPlanner, (planner.plan rule).Safe → ∀ N ≤ M, ∀ t,
    (planner.plan rule).Derives N t → t ∈ M rule.headPredicate

namespace Program

theorem keepsTo_ground (p : Program) : p.KeepsTo .ground :=
  fun _ _ _ safe _ below _ derives => safe.isGround_of_derives below derives

/-- Rules whose heads have as many terms as their predicates say derive tuples of that arity. -/
theorem keepsTo_right {p : Program} (fits : ∀ rule ∈ p, rule.head.Fits) : p.KeepsTo .right := by
  intro rule member planner _ N _ t derives
  have head : (planner.plan rule).head = rule.head := (planner.plan_perm rule).1
  have arity := derives.arity (head.symm ▸ fits rule member)
  rwa [Rule.headPredicate, head] at arity

theorem KeepsTo.mono {M : Interpretation} {p q : Program} (keeps : p.KeepsTo M)
    (members : ∀ rule ∈ q, rule ∈ p) : q.KeepsTo M := fun rule hr => keeps rule (members rule hr)

end Program

/-! ### Sinks -/

/-- A job is read from its sink, and nothing is left there. -/
theorem Engine.sinks_run {e e' : Engine} {job : Job} {rows : Relation}
    (h : e.run job = .ok (rows, e')) : e'.sinks = e.sinks.erase job.sink := by
  obtain ⟨submitted, accepted, taken⟩ := bind_eq_ok_iff.1 h
  obtain ⟨-, -, accepted⟩ := bind_eq_ok_iff.1 accepted
  cases accepted
  unfold take at taken
  split at taken
  · cases taken
  · cases taken
    refine SortedMap.ext_get? fun name => ?_
    rw [SortedMap.get?_erase, SortedMap.get?_erase]
    split
    · rfl
    · next other =>
      refine SortedMap.get?_insert_of_ne fun own => other ?_
      rw [own, Std.ReflOrd.compare_self]

namespace CompiledRule

variable {c : CompiledRule} {ctx : Context} {facts : Facts} {engine : Engine}

theorem sinks_runFrom {delta : Option Delta} {ops : List (Operator × Nat)} {rows : Relation}
    (read : engine.sinks = ∅) : (c.runFrom ctx facts delta ops rows engine).2.sinks = ∅ := by
  induction ops generalizing rows engine with
  | nil => exact read
  | cons op ops ih =>
    obtain ⟨op, i⟩ := op
    rw [runFrom]
    split
    · exact read
    · next rows' engine' ran =>
      have read' : engine'.sinks = ∅ := by
        rw [Engine.sinks_run ran, read]
        rfl
      split
      · exact read'
      · exact ih read'

theorem sinks_runDeltas {ds : List Delta} {rows : Relation} (read : engine.sinks = ∅) :
    (c.runDeltas ctx facts ds rows engine).2.sinks = ∅ := by
  induction ds generalizing rows engine with
  | nil => exact read
  | cons d ds ih =>
    have first : (c.run ctx facts (some d) engine).2.sinks = ∅ := sinks_runFrom read
    rw [runDeltas]
    split
    · next failed =>
      rw [failed] at first
      exact first
    · next ran =>
      rw [ran] at first
      exact ih first

/-- A call of a compiled rule leaves no sink unread, whether it fails or not. -/
theorem sinks_call {deltas : Option Facts} (read : engine.sinks = ∅) :
    (c.toEvaluable.call ctx deltas facts engine).2.sinks = ∅ := by
  cases deltas with
  | none => exact sinks_runFrom read
  | some deltas => exact sinks_runDeltas read

end CompiledRule

/-- A call passes on the state that the rule leaves. -/
theorem Run.env_perform {σ τ : Type} [FactStore τ] (run : Run σ τ) (rule : EvaluableRule σ) (c : Call) :
    (run.perform rule c).1.env = (rule.call c.context c.deltas run.facts run.env).2 := by
  unfold perform
  dsimp only
  split
  · next answer => rw [answer]
  · next answer =>
    rw [answer]
    split <;> rfl

theorem Strategy.sinks_evaluate {strategy : Strategy} {fuel stratum : Nat} {limits : Limits}
    {compiled : List CompiledRule} {store : Store} {engine : Engine} {run : Run Engine Store}
    (read : engine.sinks = ∅)
    (h : strategy.evaluate fuel limits stratum (compiled.map CompiledRule.toEvaluable) store engine =
      some run) : run.env.sinks = ∅ := by
  refine Strategy.evaluate_keeps (P := fun run : Run Engine Store => run.env.sinks = ∅) read ?_
    (fun run kept => kept) h
  intro run rule call _ member kept
  obtain ⟨c, -, rfl⟩ := List.mem_map.1 (List.mem_of_getElem? member)
  rw [Run.env_perform]
  exact CompiledRule.sinks_call kept

/-! ### Errors before evaluation -/

/-- A computation fails in its first half or in its second. -/
theorem error_of_bind {ε α β : Type} {x : Except ε α} {f : α → Except ε β} {e : ε}
    (h : (x >>= f) = .error e) : x = .error e ∨ ∃ a, x = .ok a ∧ f a = .error e := by
  cases x with
  | error e' =>
    cases h
    exact .inl rfl
  | ok a => exact .inr ⟨a, rfl, h⟩

theorem Rule.refuses_of_validate {r : Rule} {e : EngineError} (h : r.validate = .error e) :
    e.Refuses := by
  unfold validate at h
  split at h
  · cases h
    unfold Safety.builtinFault
    split <;> trivial
  · split at h
    · cases h
      trivial
    · split at h
      · cases h
        trivial
      · cases h

theorem Program.refuses_of_validate {p : Program} {e : EngineError} (h : p.validate = .error e) :
    e.Refuses := by
  induction p with
  | nil => cases h
  | cons rule p ih =>
    rcases error_of_bind h with first | ⟨-, -, rest⟩
    · exact Rule.refuses_of_validate first
    · exact ih rest

theorem Program.refuses_of_stratify {p : Program} {e : EngineError} (h : p.stratify = .error e) :
    e.Refuses := by
  obtain ⟨-, q, n, rfl⟩ := Program.not_layered_of_stratify h
  trivial

namespace Operator

variable {r : Rule} {S : List String} {e : EngineError}

theorem refuses_of_ofBuiltin {b : Builtin} {a : Atom} {negated : Bool}
    (h : ofBuiltin r S b a negated = .error e) : e.Refuses := by
  unfold ofBuiltin at h
  split at h
  · cases h
  · cases h
    trivial
  · split at h <;> cases h
    trivial
  · cases h
    trivial

theorem refuses_of_ofLiteral {l : Literal} (h : ofLiteral r S l = .error e) : e.Refuses := by
  unfold ofLiteral at h
  split at h
  · exact refuses_of_ofBuiltin h
  · cases h
  · unfold ofAntijoin at h
    split at h <;> cases h
    trivial

theorem refuses_of_ofHead (h : ofHead r S = .error e) : e.Refuses := by
  simp only [ofHead] at h
  split at h <;> cases h
  trivial

end Operator

namespace Rule

variable {r : Rule} {e : EngineError}

theorem refuses_of_operatorsFrom {S : List String} {ls : List Literal}
    (h : r.operatorsFrom S ls = .error e) : e.Refuses := by
  induction ls generalizing S with
  | nil =>
    rcases error_of_bind h with last | ⟨op, -, done⟩
    · exact Operator.refuses_of_ofHead last
    · cases done
  | cons l ls ih =>
    rcases error_of_bind h with first | ⟨op, -, h⟩
    · exact Operator.refuses_of_ofLiteral first
    · rcases error_of_bind h with rest | ⟨ops, -, done⟩
      · exact ih rest
      · cases done

/-- A rule that does not compile is refused. -/
theorem refuses_of_compile (h : r.compile = .error e) : e.Refuses := by
  rcases error_of_bind h with invalid | ⟨-, -, h⟩
  · exact refuses_of_validate invalid
  · rcases error_of_bind h with unordered | ⟨ops, -, done⟩
    · exact refuses_of_operatorsFrom unordered
    · cases done

end Rule

/-! ### Reasoners -/

namespace Reasoner

variable {r r' : Reasoner} {M : Interpretation}

/-- A reasoner over facts in memory, all of them in the interpretation, whose engine has no unread
sinks. -/
structure Confined (M : Interpretation) (r : Reasoner) : Prop where
  facts : ∃ f, r.store = .memory f ∧ f.model ≤ M
  sinks : r.engine.sinks = ∅

/-- The errors that a reasoner fails with: it refuses, or a tuple that it holds has not the arity of its
predicate. -/
def FailsWith (r : Reasoner) (e : EngineError) : Prop := e.Refuses ∨ e.Mismatch r.facts.model

/-- If all tuples have the arities of their predicates, it only refuses. -/
theorem FailsWith.refuses {e : EngineError} (fails : r.FailsWith e) (right : r.Confined .right) :
    e.Refuses := by
  rcases fails with refused | ⟨context, p, t, ht, other, -⟩
  · exact refused
  · obtain ⟨f, memory, below⟩ := right.facts
    rw [Reasoner.facts, memory] at ht
    exact absurd (below p ht) other

/-- A batch of ground facts holds what the facts say. -/
theorem model_le_of_batchOf {fs : List Rule} {init batch : Facts} (below : init.model ≤ M)
    (given : ∀ fact ∈ fs, fact.head.isGround = true → fact.head.terms ∈ M fact.headPredicate)
    (h : batchOf init fs = .ok batch) : batch.model ≤ M := by
  induction fs generalizing init with
  | nil =>
    cases h
    exact below
  | cons fact fs ih =>
    obtain ⟨first, others⟩ := List.forall_mem_cons.1 given
    rw [batchOf] at h
    split at h
    · next ground =>
      rw [Bool.and_eq_true] at ground
      refine ih (Facts.model_add_le below fun t ht => ?_) others h
      rw [SortedSet.mem_ofList, List.mem_singleton] at ht
      exact ht ▸ first ground.2
    · cases h

theorem Confined.importFacts (confined : r.Confined M) {fs : List Rule}
    (given : ∀ fact ∈ fs, fact.head.isGround = true → fact.head.terms ∈ M fact.headPredicate) :
    (r.importFacts fs).2.Confined M := by
  unfold Reasoner.importFacts
  split
  · exact confined
  · next batch made =>
    obtain ⟨⟨f, memory, old⟩, sinks⟩ := confined
    have new : batch.model ≤ M :=
      model_le_of_batchOf (fun _ _ ht => absurd ht SortedSet.not_mem_empty) given made
    refine ⟨⟨Directory.addAll batch.toList f, ?_, fun p t ht => ?_⟩, sinks⟩
    · rw [importBatch, memory]
      rfl
    · exact (Directory.mem_scan_addAll_toList.1 ht).elim (fun was => old p was) (fun is_new => new p is_new)

/-- A query leaves the facts as they are. -/
theorem Confined.query (confined : r.Confined M) (a : Atom) : (r.query a).2.Confined M := by
  unfold Reasoner.query
  split
  · exact confined
  · exact ⟨confined.facts, CompiledRule.sinks_runFrom confined.sinks⟩

/-- A query is refused, or fails for a stored tuple. -/
theorem failsWith_of_query {a : Atom} {e : EngineError} (h : (r.query a).1 = .error e) :
    r.FailsWith e := by
  unfold Reasoner.query at h
  split at h
  · next failed =>
    cases h
    exact .inl (Rule.refuses_of_compile failed)
  · next compiled => exact .inr (CompiledRule.of_evaluate_error compiled (Prod.ext h rfl))

/-- A stratum adds only tuples of an interpretation that its rules keep to. It fails if a rule of it is
refused, or for a tuple that is there when it fails. -/
theorem Confined.evaluateStratum (confined : r.Confined M) (settled : Predicate → Prop)
    {rules : Program} (keeps : rules.KeepsTo M)
    (negated : ∀ rule ∈ rules, ∀ l ∈ rule.body, l.NegatesStored → settled l.predicate)
    (open_heads : ∀ rule ∈ rules, ¬settled rule.headPredicate) {fuel k : Nat}
    {result : Except EngineError Report} (h : r.evaluateStratum fuel k rules = some (result, r')) :
    r'.Confined M ∧ ∀ e, result = .error e → r'.FailsWith e := by
  unfold Reasoner.evaluateStratum at h
  cases mapped : rules.mapM r.compile with
  | error e =>
    rw [mapped] at h
    cases h
    refine ⟨confined, fun e' same => ?_⟩
    cases same
    obtain ⟨rule, -, failed⟩ := exists_of_mapM_error mapped
    exact .inl (Rule.refuses_of_compile failed)
  | ok compiled =>
    rw [mapped] at h
    obtain ⟨run, evaluated, h⟩ := Option.bind_eq_some_iff.1 h
    obtain ⟨⟨f, memory, below⟩, sinks⟩ := confined
    have read : run.env.sinks = ∅ := Strategy.sinks_evaluate sinks evaluated
    have stored : FactStore.facts r.store = f := by rw [memory]; rfl
    have good : f.Continues settled (FactStore.facts r.store) := by
      rw [stored]
      exact .refl f settled
    have incremental : ∀ rule ∈ compiled.map CompiledRule.toEvaluable,
        rule.Incremental (f.Continues settled) := incremental_of_compile mapped negated open_heads
    obtain ⟨growth, -⟩ := Strategy.evaluate_spec Store.reliable incremental ⟨f, memory⟩ good evaluated
    rw [stored] at growth
    obtain ⟨f', memory'⟩ := growth.kind
    have facts' : run.facts = f' := congrArg FactStore.facts memory'
    have below' : f'.model ≤ M := by
      rw [← facts']
      refine growth.within M below fun evaluable member g _ within out gives t ht => ?_
      obtain ⟨c, hc, rfl⟩ := List.mem_map.1 member
      obtain ⟨rule, hr, compiles⟩ := (mem_of_mapM mapped).1 c hc
      rw [head_of_compile compiles]
      exact keeps rule hr r.planner (CompiledRule.safe_of_compile compiles) g.model within t
        (CompiledRule.derives_of_mayGive compiles gives ht)
    dsimp only at h
    split at h
    · next e failure =>
      cases h
      refine ⟨⟨⟨f', memory', below'⟩, read⟩, fun e' same => ?_⟩
      cases same
      refine .inr (mismatch_of_growth (fun c hc => ?_) growth failure)
      obtain ⟨rule, -, compiles⟩ := (mem_of_mapM mapped).1 c hc
      exact ⟨_, compiles⟩
    · obtain ⟨after, recorded, stored', -, engine⟩ :=
        recordDerived_memory (r := { r with store := run.store, engine := run.env }) memory'
          (resultContext k run.report.iterations rules) run.report.derived.toList
      rw [recorded] at h
      cases h
      exact ⟨⟨⟨f', stored', below'⟩, engine ▸ read⟩, fun e failed => nomatch failed⟩

/-- The strata of a layered program add only tuples of an interpretation that its rules keep to, however
far they get. -/
theorem Confined.evaluateStrata (confined : r.Confined M) {p : Program} {s : Predicate → Nat}
    (layered : p.LayeredBy s) (keeps : p.KeepsTo M) {k fuel : Nat} {strata : List Program}
    (listed : ListsStrata p s k strata) {result : Except EngineError (List Report)}
    (h : Reasoner.evaluateStrata fuel (strata.zipIdx k) r = some (result, r')) :
    r'.Confined M ∧ ∀ e, result = .error e → r'.FailsWith e := by
  induction strata generalizing k r result with
  | nil =>
    cases h
    exact ⟨confined, fun e failed => nomatch failed⟩
  | cons rules strata ih =>
    obtain ⟨negated, open_heads⟩ := listed.settled layered
    have own : rules.KeepsTo M := keeps.mono fun rule hr => (listed.mem hr).1
    rw [List.zipIdx_cons] at h
    cases rules with
    | nil => exact ih confined listed.rest h
    | cons rule rules =>
      obtain ⟨⟨first, r₁⟩, evaluated, h⟩ := Option.bind_eq_some_iff.1 h
      obtain ⟨confined₁, fails⟩ :=
        confined.evaluateStratum (fun q => s q < k) own negated open_heads evaluated
      cases first with
      | error e =>
        cases h
        exact ⟨confined₁, fun e' same => fails e' (by cases same; rfl)⟩
      | ok report =>
        obtain ⟨⟨others, r₂⟩, rest, h⟩ := Option.bind_eq_some_iff.1 h
        cases h
        obtain ⟨confined₂, fails₂⟩ := ih confined₁ listed.rest rest
        refine ⟨confined₂, fun e failed => ?_⟩
        cases others with
        | error e' =>
          cases failed
          exact fails₂ _ rfl
        | ok reports => cases failed

/-- **An evaluation adds only tuples of an interpretation that the rules keep to.** If it fails, the program
is refused, or a tuple that is there when it fails has not the arity of its predicate. -/
theorem Confined.evaluate (confined : r.Confined M) {p : Program} (keeps : p.KeepsTo M) {fuel : Nat}
    {result : Except EngineError ProgramReport} (h : r.evaluate fuel p = some (result, r')) :
    r'.Confined M ∧ ∀ e, result = .error e → r'.FailsWith e := by
  rcases evaluate_cases h with ⟨rfl, e, rfl, refused⟩ | ⟨strat, reports, -, stratified, evaluated, rfl⟩
  · refine ⟨confined, fun e' same => ?_⟩
    cases same
    exact .inl (refused.elim Program.refuses_of_validate Program.refuses_of_stratify)
  · have counted : Confined M { r with counts := r.storedCounts } := ⟨confined.facts, confined.sinks⟩
    obtain ⟨confined', fails⟩ := counted.evaluateStrata (Program.isLeast_stratumOf stratified).1 keeps
      (listsStrata_of_stratify stratified) evaluated
    refine ⟨confined', fun e failed => ?_⟩
    cases reports with
    | error e' =>
      cases failed
      exact fails _ rfl
    | ok reports => cases failed

/-- The states that imports, evaluations and queries lead to, whether they succeed or not, from an empty
store in memory, when all facts that are imported and all heads of rules are allowed atoms. -/
inductive Reached (Allowed : Atom → Prop) : Reasoner → Prop
  | fresh (settings : Settings) (strategy : Strategy) :
      Reached Allowed { settings, strategy, store := .memory ∅ }
  | importFacts {r : Reasoner} (before : Reached Allowed r) {fs : List Rule}
      (allowed : ∀ fact ∈ fs, Allowed fact.head) : Reached Allowed (r.importFacts fs).2
  | evaluate {r r' : Reasoner} (before : Reached Allowed r) {fuel : Nat} {p : Program}
      (allowed : ∀ rule ∈ p, Allowed rule.head) {result : Except EngineError ProgramReport}
      (answer : r.evaluate fuel p = some (result, r')) : Reached Allowed r'
  | query {r : Reasoner} (before : Reached Allowed r) (a : Atom) : Reached Allowed (r.query a).2

variable {Allowed : Atom → Prop}

/-- Whatever interpretation allowed facts and allowed heads keep to, a reasoner keeps to. -/
theorem Reached.confined (reached : r.Reached Allowed)
    (given : ∀ a, Allowed a → a.isGround = true → a.terms ∈ M a.predicate)
    (keeps : ∀ p : Program, (∀ rule ∈ p, Allowed rule.head) → p.KeepsTo M) : r.Confined M := by
  induction reached with
  | fresh settings strategy =>
    exact ⟨⟨∅, rfl, fun _ _ ht => absurd ht SortedSet.not_mem_empty⟩, rfl⟩
  | importFacts _ allowed confined =>
    exact confined.importFacts fun fact member => given fact.head (allowed fact member)
  | evaluate _ allowed answer confined => exact (confined.evaluate (keeps _ allowed) answer).1
  | query _ a confined => exact confined.query a

theorem Reached.confined_ground (reached : r.Reached Allowed) : r.Confined .ground :=
  reached.confined (fun _ _ ground => ground) fun p _ => p.keepsTo_ground

theorem Reached.confined_right (reached : r.Reached Allowed) (fits : ∀ a, Allowed a → a.Fits) :
    r.Confined .right :=
  reached.confined (fun a allowed _ => fits a allowed)
    fun _ allowed => Program.keepsTo_right fun rule member => fits rule.head (allowed rule member)

/-- **Nothing fails but for an arity.** Whatever was imported, evaluated and asked, with success or not,
every stored tuple is ground, and no sink is left unread. A program or a query that then fails is refused
as unsafe, for its arities, or because it cannot be layered, or else it has come across a stored tuple that
has not the arity of its predicate. A query on stored facts fails exactly if its predicate has such a
tuple. As long as all imported facts and all heads have as many terms as their predicates say, there is no
such tuple, and programs of that kind and queries are refused or answered. -/
theorem Reached.fails_only_on_arity (reached : r.Reached Allowed) :
    (∃ f, r.store = .memory f) ∧
    (∀ p, ∀ t ∈ r.relation p, t.isGround = true) ∧
    r.engine.pending = 0 ∧
    (∀ fuel p e r', r.evaluate fuel p = some (.error e, r') →
      e.Refuses ∨ e.Mismatch r'.facts.model) ∧
    (∀ a e, (r.query a).1 = .error e → e.Refuses ∨ e.Mismatch r.facts.model) ∧
    (∀ a, Builtin.ofAtom? a = none → ((∃ e, (r.query a).1 = .error e) ↔
      ∃ t ∈ r.relation a.predicate, t.arity ≠ a.predicate.arity)) ∧
    ((∀ a, Allowed a → a.Fits) →
      (∀ p, ∀ t ∈ r.relation p, t.arity = p.arity) ∧
      (∀ fuel p e r', (∀ rule ∈ p, rule.head.Fits) → r.evaluate fuel p = some (.error e, r') →
        e.Refuses) ∧
      ∀ a e, (r.query a).1 = .error e → e.Refuses) := by
  have ground := reached.confined_ground
  obtain ⟨f, memory, below⟩ := ground.facts
  have stored : r.facts = f := by rw [facts, memory]; rfl
  refine ⟨⟨f, memory⟩, fun p t ht => ?_, ?_, fun fuel p e r' failed => ?_, fun a e => failsWith_of_query,
    fun a is_stored => ?_, fun fits => ?_⟩
  · rw [relation, stored] at ht
    exact below p ht
  · rw [Engine.pending, ground.sinks]
    rfl
  · exact (ground.evaluate p.keepsTo_ground failed).2 e rfl
  · exact query_fails_iff r is_stored
  · have right := reached.confined_right fits
    obtain ⟨f', memory', below'⟩ := right.facts
    refine ⟨fun p t ht => ?_, fun fuel p e r' heads failed => ?_, fun a e failed => ?_⟩
    · rw [relation, facts, memory'] at ht
      exact below' p ht
    · obtain ⟨right', fails⟩ := right.evaluate (Program.keepsTo_right heads) failed
      exact (fails e rfl).refuses right'
    · exact (failsWith_of_query failed).refuses right

/-- The start and the roads, one fact each. -/
def roadFacts : List Rule :=
  [⟨.ofInts "start" [1], []⟩, ⟨.ofInts "road" [1, 2], []⟩, ⟨.ofInts "road" [2, 3], []⟩,
    ⟨.ofInts "road" [3, 4], []⟩, ⟨.ofInts "closed" [4], []⟩]

/-- A fact with two terms, for a predicate that has one. -/
def misfit : Rule := ⟨⟨⟨"p", 1⟩, .ofInts [1, 2]⟩, []⟩

/-- A reasoner that has imported the fact with two terms cannot be asked for its predicate. One that has
imported the roads and found the stranded town can be asked anything. -/
theorem misfit_fails_and_roads_do_not :
    (∃ r : Reasoner, r.Reached (fun _ => True) ∧ (r.relation ⟨"p", 1⟩).toList = [Tuple.ofInts [1, 2]] ∧
      ∃ e, (r.query (.ofVars "p" ["X"])).1 = .error e ∧ ¬e.Refuses ∧ e.Mismatch r.facts.model) ∧
    ∃ r : Reasoner, r.Reached Atom.Fits ∧ (r.relation ⟨"stranded", 1⟩).toList = [Tuple.ofInts [4]] ∧
      (∀ p, ∀ t ∈ r.relation p, t.isGround = true ∧ t.arity = p.arity) ∧ r.engine.pending = 0 ∧
      ∀ a e, (r.query a).1 = .error e → e.Refuses := by
  constructor
  · let r : Reasoner := (emptyReasoner.importFacts [misfit]).2
    have reached : r.Reached (fun _ => True) := .importFacts (.fresh {} .dependency) fun _ _ => trivial
    have listed : (r.relation ⟨"p", 1⟩).toList = [Tuple.ofInts [1, 2]] := by decide +kernel
    have not_refused : (match (r.query (.ofVars "p" ["X"])).1 with
        | .error e => decide e.Refuses
        | .ok _ => true) = false := by decide +kernel
    obtain ⟨-, -, -, -, asked, fails, -⟩ := reached.fails_only_on_arity
    obtain ⟨e, failed⟩ := (fails (.ofVars "p" ["X"]) (by decide +kernel)).2
      ⟨.ofInts [1, 2], by rw [SortedSet.mem_def]; exact listed ▸ List.mem_cons_self, by decide⟩
    rw [failed] at not_refused
    have accepted : ¬e.Refuses := of_decide_eq_false not_refused
    exact ⟨r, reached, listed, e, failed, accepted, (asked _ e failed).resolve_left accepted⟩
  · have evaluated : (((emptyReasoner.importFacts roadFacts).2.evaluate 9 strandedRules).map fun answer =>
        (answer.2.relation ⟨"stranded", 1⟩).toList) = some [Tuple.ofInts [4]] := by decide +kernel
    obtain ⟨⟨result, r⟩, answer, listed⟩ := Option.map_eq_some_iff.1 evaluated
    have reached : r.Reached Atom.Fits :=
      .evaluate (.importFacts (.fresh {} .dependency) (by decide)) (by decide) answer
    obtain ⟨-, ground, read, -, -, -, right⟩ := reached.fails_only_on_arity
    obtain ⟨arities, -, asked⟩ := right fun _ fits => fits
    exact ⟨r, reached, listed, fun p t ht => ⟨ground p t ht, arities p t ht⟩, read, asked⟩

end Reasoner

end Datalog
