import Datalog.CompiledRule
import Datalog.Proofs.Derivations
import Datalog.Proofs.JobValidation

/-!
# What compiled rules compute

A compiled rule answers exactly if it is accepted (`CompiledRule.run_ok`, `CompiledRule.run_refused`), and
then with what it derives, be it from all facts (`CompiledRule.evaluate_ok`) or with new tuples in the
place of stored facts at one join after the other (`CompiledRule.evaluateDelta_ok`). The one error of a
run is that of a job which read a tuple that has not the arity of its predicate; on facts of the right
arities there is none.
-/

namespace Datalog

/-! ### Jobs that are accepted and jobs that are refused -/

/-- A job is accepted when its keys pair up and every input is given with its arity. -/
theorem Job.validate_ok {job : Job} (keys : job.plan.checkKeys = .ok ())
    (inputs : ∀ e ∈ job.plan.inputNodes, ∃ R, job.sources.get? e.1 = some R ∧ R.HasArity e.2) :
    job.validate = .ok () :=
  Sound.validate_ok ⟨Plan.checkKeys_eq_ok_iff.1 keys, fun name arity node =>
    inputs (name, arity) (Plan.mem_inputNodes_iff.2 node)⟩

/-- An accepted job yields the rows of its plan. -/
theorem Engine.run_ok {job : Job} (valid : job.validate = .ok ()) (e : Engine) :
    ∃ e', e.run job = .ok (job.rows, e') := by
  unfold run submit
  rw [valid]
  show ∃ e', ({ e with sinks := e.sinks.insert job.sink job.rows } : Engine).take job.sink = _
  unfold take
  rw [SortedMap.get?_insert_self]
  exact ⟨_, rfl⟩

/-- A relation with a tuple of another arity is refused as an input. -/
theorem Sources.checkInput_wrong {sources : Sources} {name : String} {arity : Nat} {r : Relation}
    (bound : sources.get? name = some r) (wrong : ¬r.HasArity arity) :
    ∃ t ∈ r, t.arity ≠ arity ∧
      sources.checkInput name arity = .error (.arityMismatch name arity t.arity) := by
  unfold checkInput
  rw [bound]
  dsimp only
  cases found : r.toList.find? fun t => t.length ≠ arity with
  | none =>
    refine absurd (fun t ht => ?_) wrong
    simpa [Tuple.arity] using List.find?_eq_none.1 found t ht
  | some t =>
    have other : t.arity ≠ arity := by simpa [Tuple.arity] using List.find?_some found
    exact ⟨t, List.mem_of_find?_eq_some found, other, rfl⟩

/-- A job with two inputs is refused if the tuples of the second have not all the arity expected. -/
theorem Engine.run_wrong {job : Job} {a b : String} {n m : Nat} (apart : b ≠ a)
    (keys : job.plan.checkKeys = .ok ()) (nodes : job.plan.inputNodes = [(a, n), (b, m)])
    (first : job.sources.Supplies a n) {R : Relation} (second : job.sources.get? b = some R)
    (wrong : ¬R.HasArity m) (e : Engine) :
    ∃ t ∈ R, t.arity ≠ m ∧ e.run job = .error (.arityMismatch b m t.arity) := by
  obtain ⟨t, ht, other, refused⟩ := Sources.checkInput_wrong second wrong
  have inputs : job.plan.inputs = [(a, n), (b, m)] := by
    simp [Plan.inputs, nodes, Plan.firstOfEachName, apart]
  have invalid : job.validate = .error (.arityMismatch b m t.arity) := by
    rw [Job.validate, keys, inputs]
    show (job.sources.checkInput a n >>= fun _ => job.sources.checkInput b m >>= fun _ => _) = _
    rw [Sources.checkInput_eq_ok_iff.2 first, refused]
    rfl
  refine ⟨t, ht, other, ?_⟩
  unfold run submit
  rw [invalid]
  rfl

namespace Operator

variable {S : List String} {l : Literal} {op : Operator}

theorem inputNodes_scan (a : Atom) : (scan a).inputNodes = [(source, a.predicate.arity)] := by
  simp only [scan, Plan.inputNodes]
  split <;> rfl

theorem checkKeys_scan (a : Atom) : (scan a).checkKeys = .ok () := by
  simp only [scan, Plan.checkKeys]
  split <;> rfl

/-- The operator of a literal reads the running relation and, if the literal is stored, its facts. -/
theorem ForLiteral.inputNodes (h : ForLiteral S l op) : op.plan.inputNodes =
    (running, S.length) :: (op.source?.map fun p => (source, p.arity)).toList := by
  cases h with
  | join stored pos =>
    simp only [ofJoin, Plan.inputNodes, inputNodes_scan]
    rfl
  | antijoin stored neg bound =>
    simp only [Plan.inputNodes, inputNodes_scan]
    rfl
  | check b builtin bound => rfl
  | bind b x pre post builtin pos binds => rfl

/-- The operator of a literal reads facts exactly if the literal is stored, and then those of its
predicate. -/
theorem ForLiteral.source?_eq_some_iff (h : ForLiteral S l op) {p : Predicate} :
    op.source? = some p ↔ l.builtin? = none ∧ l.predicate = p := by
  cases h with
  | join stored pos => simp [ofJoin, source?, stored, Literal.predicate]
  | antijoin stored neg bound => simp [source?, stored]
  | check b builtin bound => simp [call, source?, builtin]
  | bind b x pre post builtin pos binds => simp [call, source?, builtin]

/-- The keys of its join pair up: they are the two halves of the shared columns. -/
theorem ForLiteral.checkKeys (h : ForLiteral S l op) : op.plan.checkKeys = .ok () := by
  cases h with
  | join stored pos =>
    simp only [ofJoin, Plan.checkKeys, List.length_map, ne_eq, not_true, if_false, checkKeys_scan]
    rfl
  | antijoin stored neg bound =>
    simp only [Plan.checkKeys, List.length_map, ne_eq, not_true, if_false, checkKeys_scan]
    rfl
  | check b builtin bound => rfl
  | bind b x pre post builtin pos binds => rfl

end Operator

theorem Represents.hasArity {S : List String} {Sat : Substitution → Prop} {R : Relation}
    (rep : Represents S Sat R) : R.HasArity S.length := by
  intro t ht
  obtain ⟨σ, -, rfl⟩ := (rep.rows t).1 ht
  simp [Tuple.arity]

theorem Represents.inhabited {S : List String} {Sat : Substitution → Prop} {R : Relation}
    (rep : Represents S Sat R) (more : ¬R.isEmpty = true) : ∃ σ, Sat σ := by
  by_contra none
  refine more (SortedSet.isEmpty_iff.2 fun t ht => ?_)
  obtain ⟨σ, sat, -⟩ := (rep.rows t).1 ht
  exact none ⟨σ, sat⟩

/-- The error of a rule that reads a tuple of a predicate which has another arity. -/
def EngineError.mismatch (context : String) (p : Predicate) (t : Tuple) : EngineError :=
  .evaluation context (.dataflow (.arityMismatch Operator.source p.arity t.arity))

/-- The error is that of a tuple of the interpretation which has not the arity of its predicate. -/
def EngineError.Mismatch (M : Interpretation) (e : EngineError) : Prop :=
  ∃ context p t, t ∈ M p ∧ t.arity ≠ p.arity ∧ e = .mismatch context p t

/-- The error is that of a tuple which a stored literal of the body reads, where literal number `i` reads
the tuples of `M i`. -/
def Literal.Refused (M : Nat → Interpretation) (ls : List Literal) (e : EngineError) : Prop :=
  ∃ (i : Nat) (l : Literal), ls[i]? = some l ∧ l.builtin? = none ∧
    ∃ context, ∃ t ∈ M i l.predicate, t.arity ≠ l.predicate.arity ∧ e = .mismatch context l.predicate t

theorem Literal.Refused.mismatch {M : Nat → Interpretation} {N : Interpretation} {ls : List Literal}
    {e : EngineError} (h : Refused M ls e)
    (le : ∀ i l, ls[i]? = some l → M i l.predicate ⊆ N l.predicate) : e.Mismatch N := by
  obtain ⟨i, l, member, -, context, t, ht, other, rfl⟩ := h
  exact ⟨context, l.predicate, t, le i l member ht, other, rfl⟩

/-! ### The operators of a body -/

/-- The operators of body literals over the columns `S`, with the operator of the head at the end. -/
inductive Operator.ForBody (r : Rule) : List String → List Literal → List Operator → Prop
  | head {S op} (last : ofHead r S = .ok op) : ForBody r S [] [op]
  | literal {S l ls op ops} (first : ForLiteral S l op) (rest : ForBody r op.schema ls ops) :
      ForBody r S (l :: ls) (op :: ops)

namespace Rule

theorem forBody_of_operatorsFrom {r : Rule} {S : List String} {ls : List Literal}
    {ops : List Operator} (h : r.operatorsFrom S ls = .ok ops) : Operator.ForBody r S ls ops := by
  induction ls generalizing S ops with
  | nil =>
    obtain ⟨op, last, rest⟩ := bind_eq_ok_iff.1 h
    cases rest
    exact .head last
  | cons l ls ih =>
    obtain ⟨op, first, h⟩ := bind_eq_ok_iff.1 h
    obtain ⟨ops', rest, h⟩ := bind_eq_ok_iff.1 h
    cases h
    exact .literal (Operator.forLiteral_of_ofLiteral first) (ih rest)

/-- A compiled rule has the operators of its body. -/
theorem forBody_of_compile {r : Rule} {c : CompiledRule} (h : r.compile = .ok c) :
    c.rule = r ∧ Operator.ForBody r [] r.body c.operators := by
  obtain ⟨-, -, h⟩ := bind_eq_ok_iff.1 h
  obtain ⟨ops, operators, h⟩ := bind_eq_ok_iff.1 h
  cases h
  exact ⟨rfl, forBody_of_operatorsFrom operators⟩

end Rule

/-- The rows of the last operator are the instances of the head. -/
theorem Operator.mem_rows_ofHead {r : Rule} {S : List String} {op : Operator}
    (last : ofHead r S = .ok op) {Sat : Substitution → Prop} {R : Relation}
    (rep : Represents S Sat R) {src : Sources} (input : src.getD running ∅ = R) (t : Tuple) :
    t ∈ op.plan.rows src ↔ ∃ σ, Sat σ ∧ r.headInstance σ = t := by
  simp only [ofHead] at last
  split at last
  · cases last
  · next unbound =>
    cases last
    have bound : ∀ x ∈ r.head.terms.varNames, x ∈ S := by
      simpa [Template.unboundVariables] using unbound
    have filled (σ : Substitution) := Template.apply_map (t := ⟨r.head.terms, S⟩) bound σ
    simp only [Plan.rows, input, Relation.mem_filterMap]
    constructor
    · rintro ⟨row, hrow, happly⟩
      obtain ⟨σ, sat, rfl⟩ := (rep.rows _).1 hrow
      rw [filled, Option.some.injEq] at happly
      exact ⟨σ, sat, happly⟩
    · rintro ⟨σ, sat, rfl⟩
      exact ⟨_, (rep.rows _).2 ⟨σ, sat, rfl⟩, filled σ⟩

/-! ### Runs of the operators -/

namespace CompiledRule

/-- What operator number `i` reads for the facts of a predicate. -/
def read (facts : Facts) (delta : Option Delta) (i : Nat) (p : Predicate) : Relation :=
  match delta with
  | some (d, tuples) => if d = i then tuples else facts.scan p
  | none => facts.scan p

/-- What operator number `i` reads, as an interpretation. -/
abbrev reading (facts : Facts) (delta : Option Delta) (i : Nat) : Interpretation :=
  fun p => {t | t ∈ read facts delta i p}

theorem get?_sources_running (facts : Facts) (delta : Option Delta) (op : Operator) (i : Nat)
    (rows : Relation) : (sources facts delta op i rows).get? Operator.running = some rows := by
  have ne : Operator.running ≠ Operator.source := by decide
  unfold sources
  cases op.source? with
  | none => exact SortedMap.get?_insert_self
  | some p => exact (SortedMap.get?_insert_of_ne ne).trans SortedMap.get?_insert_self

theorem get?_sources_source {op : Operator} {p : Predicate} (h : op.source? = some p) (facts : Facts)
    (delta : Option Delta) (i : Nat) (rows : Relation) :
    (sources facts delta op i rows).get? Operator.source = some (read facts delta i p) := by
  unfold sources
  rw [h]
  exact SortedMap.get?_insert_self

theorem getD_sources_running (facts : Facts) (delta : Option Delta) (op : Operator) (i : Nat)
    (rows : Relation) : (sources facts delta op i rows).getD Operator.running ∅ = rows := by
  rw [SortedMap.getD, get?_sources_running]
  rfl

/-- The job of a literal's operator is accepted if the facts of the literal have their arity. -/
theorem run_forLiteral {S : List String} {l : Literal} {op : Operator}
    (operator : Operator.ForLiteral S l op) {facts : Facts} {delta : Option Delta} {i : Nat}
    (right : l.builtin? = none → (read facts delta i l.predicate).HasArity l.predicate.arity)
    {R : Relation} (rows : R.HasArity S.length) (sink : String) (e : Engine) :
    ∃ e', e.run ⟨op.plan, sources facts delta op i R, sink⟩ =
      .ok (op.plan.rows (sources facts delta op i R), e') := by
  apply Engine.run_ok
  apply Job.validate_ok operator.checkKeys
  intro n hn
  rw [operator.inputNodes] at hn
  rcases List.mem_cons.1 hn with rfl | of_facts
  · exact ⟨R, get?_sources_running .., rows⟩
  · obtain ⟨p, reads, rfl⟩ : ∃ p, op.source? = some p ∧ (Operator.source, p.arity) = n := by
      simpa using of_facts
    obtain ⟨stored, rfl⟩ := operator.source?_eq_some_iff.1 reads
    exact ⟨_, get?_sources_source reads .., right stored⟩

/-- Otherwise it is refused, for one of the facts that have another arity. -/
theorem run_forLiteral_wrong {S : List String} {l : Literal} {op : Operator}
    (operator : Operator.ForLiteral S l op) {facts : Facts} {delta : Option Delta} {i : Nat}
    (stored : l.builtin? = none)
    (wrong : ¬(read facts delta i l.predicate).HasArity l.predicate.arity) {R : Relation}
    (rows : R.HasArity S.length) (sink : String) (e : Engine) :
    ∃ t ∈ read facts delta i l.predicate, t.arity ≠ l.predicate.arity ∧
      e.run ⟨op.plan, sources facts delta op i R, sink⟩ =
        .error (.arityMismatch Operator.source l.predicate.arity t.arity) := by
  have reads : op.source? = some l.predicate := operator.source?_eq_some_iff.2 ⟨stored, rfl⟩
  refine Engine.run_wrong (by decide) operator.checkKeys ?_ ⟨R, get?_sources_running .., rows⟩
    (get?_sources_source reads ..) wrong e
  rw [operator.inputNodes, reads]
  rfl

/-- The job of the head's operator is accepted. -/
theorem run_ofHead {r : Rule} {S : List String} {op : Operator} (last : Operator.ofHead r S = .ok op)
    (facts : Facts) (delta : Option Delta) (i : Nat) {R : Relation} (rows : R.HasArity S.length)
    (sink : String) (e : Engine) :
    ∃ e', e.run ⟨op.plan, sources facts delta op i R, sink⟩ =
      .ok (op.plan.rows (sources facts delta op i R), e') := by
  simp only [Operator.ofHead] at last
  split at last
  · cases last
  · cases last
    apply Engine.run_ok
    apply Job.validate_ok rfl
    intro n hn
    rw [List.mem_singleton.1 hn]
    exact ⟨R, get?_sources_running .., rows⟩

section Body

variable {r : Rule} {S : List String} {l : Literal} {ls : List Literal} {op : Operator}
  {ops : List Operator} {facts : Facts} {delta : Option Delta} {k : Nat} {Sat : Substitution → Prop}
  {R : Relation}

/-- A literal whose facts have their arity keeps the substitutions that satisfy it; the run goes on with
the next operator, unless there are none. -/
theorem runFrom_literal (first : Operator.ForLiteral S l op) (c : CompiledRule) (ctx : Context)
    (right : l.builtin? = none → (read facts delta k l.predicate).HasArity l.predicate.arity)
    (rep : Represents S Sat R) (ops : List Operator) (engine : Engine) :
    ∃ R' engine', Represents op.schema
        (fun σ => Sat σ ∧ l.HoldsIn (reading facts delta k) σ ∧ ¬l.Undetermined S σ) R' ∧
      c.runFrom ctx facts delta ((op :: ops).zipIdx k) R engine =
        if R'.isEmpty then (.ok ∅, engine')
        else c.runFrom ctx facts delta (ops.zipIdx (k + 1)) R' engine' := by
  obtain ⟨engine', ran⟩ := run_forLiteral first right rep.hasArity (c.sinkName ctx delta k) engine
  have facts_read : ∀ p, op.source? = some p → ∀ t,
      t ∈ (sources facts delta op k R).getD Operator.source ∅ ↔ t ∈ read facts delta k p := by
    intro p reads t
    rw [SortedMap.getD, get?_sources_source reads]
    rfl
  refine ⟨_, engine', Operator.represents_ofLiteral first rep (getD_sources_running facts delta op k R)
    (M := reading facts delta k) facts_read, ?_⟩
  rw [List.zipIdx_cons, runFrom]
  simp only [ran]

/-- The operators after the first one read on from the next number. -/
theorem reading_succ (facts : Facts) (delta : Option Delta) (k : Nat) :
    (fun i => reading facts delta (k + (i + 1))) = fun i => reading facts delta (k + 1 + i) :=
  funext fun i => congrArg (reading facts delta) (Nat.add_right_comm k i 1)

theorem reading_zero (facts : Facts) (delta : Option Delta) :
    (fun i => reading facts delta (0 + i)) = reading facts delta :=
  funext fun i => congrArg (reading facts delta) (Nat.zero_add i)

/-- **The operators of a body, run from a relation that represents some substitutions,** give the
instances of the head under those of them that satisfy the body, if all facts that come to be read have
their arities. -/
theorem runFrom_forBody (body : Operator.ForBody r S ls ops) (c : CompiledRule) (ctx : Context)
    (rep : Represents S Sat R) (inhabited : ∃ σ, Sat σ)
    (accepted : Literal.AcceptedFrom (fun i => reading facts delta (k + i)) Sat S ls) (engine : Engine) :
    ∃ out engine', c.runFrom ctx facts delta (ops.zipIdx k) R engine = (.ok out, engine') ∧
      ∀ t, t ∈ out ↔ ∃ σ, Sat σ ∧
        Literal.Satisfied (fun i => reading facts delta (k + i)) σ S ls ∧ r.headInstance σ = t := by
  induction body generalizing k Sat R engine with
  | @head S op last =>
    obtain ⟨engine', ran⟩ := run_ofHead last facts delta k rep.hasArity
      (c.sinkName ctx delta k) engine
    have rows := Operator.mem_rows_ofHead last rep (getD_sources_running facts delta op k R)
    refine ⟨op.plan.rows (sources facts delta op k R), engine', ?_, fun t => ?_⟩
    · rw [List.zipIdx_cons, List.zipIdx_nil, runFrom]
      simp only [ran, runFrom]
      split
      · next empty =>
        have nothing := SortedSet.isEmpty_iff.1 empty
        congr 2
        exact SortedSet.ext_mem fun t => iff_of_false SortedSet.not_mem_empty (nothing t)
      · rfl
    · simp only [rows, Literal.satisfied_nil, true_and]
  | @literal S l ls op ops first rest ih =>
    obtain ⟨own, accepted⟩ := (Literal.acceptedFrom_cons_iff first.mem_schema).1 accepted
    obtain ⟨R', engine', rep', ran⟩ :=
      runFrom_literal (k := k) first c ctx (fun stored => own stored inhabited) rep ops engine
    -- Whether the run goes on or stops at an empty relation, the rest of the body decides.
    have split_body (t : Tuple) :
        (∃ σ, Sat σ ∧ Literal.Satisfied (fun i => reading facts delta (k + i)) σ S (l :: ls) ∧
          r.headInstance σ = t) ↔
        ∃ σ, (Sat σ ∧ l.HoldsIn (reading facts delta k) σ ∧ ¬l.Undetermined S σ) ∧
          Literal.Satisfied (fun i => reading facts delta (k + 1 + i)) σ op.schema ls ∧
          r.headInstance σ = t := by
      simp only [← reading_succ, Literal.satisfied_cons_iff first.mem_schema, and_assoc, Nat.add_zero]
    simp only [ran, split_body]
    split
    · next empty =>
      have nothing := SortedSet.isEmpty_iff.1 empty
      refine ⟨∅, engine', rfl, fun t => iff_of_false SortedSet.not_mem_empty ?_⟩
      rintro ⟨σ, sat, -⟩
      exact nothing _ ((rep'.rows _).2 ⟨σ, sat, rfl⟩)
    · next more =>
      rw [reading_succ] at accepted
      exact ih rep' (rep'.inhabited more) accepted engine'

/-- **If they do not have them,** the run ends with the error of one that has not. -/
theorem runFrom_refused (body : Operator.ForBody r S ls ops) (c : CompiledRule) (ctx : Context)
    (rep : Represents S Sat R) (inhabited : ∃ σ, Sat σ)
    (refused : ¬Literal.AcceptedFrom (fun i => reading facts delta (k + i)) Sat S ls) (engine : Engine) :
    ∃ e engine', c.runFrom ctx facts delta (ops.zipIdx k) R engine = (.error e, engine') ∧
      Literal.Refused (fun i => reading facts delta (k + i)) ls e := by
  induction body generalizing k Sat R engine with
  | @head S op last =>
    refine absurd (fun i l member => ?_) refused
    cases member
  | @literal S l ls op ops first rest ih =>
    by_cases right : l.builtin? = none →
        (read facts delta k l.predicate).HasArity l.predicate.arity
    · obtain ⟨R', engine', rep', ran⟩ := runFrom_literal first c ctx right rep ops engine
      rw [Literal.acceptedFrom_cons_iff first.mem_schema, not_and] at refused
      replace refused := refused fun stored _ => right stored
      rw [ran]
      split
      · next empty =>
        have nothing := SortedSet.isEmpty_iff.1 empty
        refine absurd (fun i l' member stored came_up => ?_) refused
        obtain ⟨σ, sat, -⟩ := came_up
        exact absurd ((rep'.rows _).2 ⟨σ, sat, rfl⟩) (nothing _)
      · next more =>
        rw [reading_succ] at refused
        obtain ⟨e, engine', ran', i, l', member, for_literal⟩ :=
          ih rep' (rep'.inhabited more) refused engine'
        rw [← reading_succ] at for_literal
        exact ⟨e, engine', ran', i + 1, l', member, for_literal⟩
    · push Not at right
      obtain ⟨stored, wrong⟩ := right
      obtain ⟨t, ht, other, ran⟩ :=
        run_forLiteral_wrong first stored wrong rep.hasArity (c.sinkName ctx delta k) engine
      refine ⟨_, engine, ?_, 0, l, rfl, stored, op.text ++ " (" ++ ctx.text ++ ")", t, ht, other, rfl⟩
      rw [List.zipIdx_cons, runFrom]
      simp only [ran]
      rfl

end Body

end CompiledRule

/-! ### The joins of a rule -/

/-- Operator number `i` takes new tuples exactly when literal number `i` is a positive stored one. -/
theorem Operator.ForBody.delta?_iff {r : Rule} {S : List String} {ls : List Literal}
    {ops : List Operator} (body : ForBody r S ls ops) {i : Nat} {p : Predicate} :
    (∃ op, ops[i]? = some op ∧ op.delta? = some p) ↔
      ∃ l, ls[i]? = some l ∧ l.isJoinable = true ∧ l.predicate = p := by
  induction body generalizing i with
  | @head S op last =>
    have substitutes : op.delta? = none := by
      simp only [ofHead] at last
      split at last
      · cases last
      · cases last
        rfl
    cases i with
    | zero => simp [substitutes]
    | succ i => simp
  | @literal S l ls op ops first rest ih =>
    cases i with
    | succ i => simpa using ih
    | zero =>
      have own : op.delta? = some p ↔ l.isJoinable = true ∧ l.predicate = p := by
        rw [Literal.isJoinable_iff]
        cases first with
        | join stored pos => simp [ofJoin, delta?, stored, pos, Literal.predicate]
        | antijoin stored neg bound => simp [delta?, neg]
        | check b builtin bound => simp [call, delta?, builtin]
        | bind b x pre post builtin pos binds => simp [call, delta?, builtin]
      simpa using own

namespace CompiledRule

variable {r : Rule} {c : CompiledRule}

/-- A rule reads the predicates of its positive stored literals. -/
theorem mem_reads (h : r.compile = .ok c) {p : Predicate} :
    p ∈ c.reads ↔ ∃ l ∈ r.body, l.isJoinable = true ∧ l.predicate = p := by
  obtain ⟨-, body⟩ := Rule.forBody_of_compile h
  rw [reads, List.mem_eraseDups, List.mem_filterMap]
  constructor
  · rintro ⟨op, hop, takes⟩
    obtain ⟨i, hi⟩ := List.mem_iff_getElem?.1 hop
    obtain ⟨l, hl, joinable⟩ := body.delta?_iff.1 ⟨op, hi, takes⟩
    exact ⟨l, List.mem_of_getElem? hl, joinable⟩
  · rintro ⟨l, hl, joinable⟩
    obtain ⟨i, hi⟩ := List.mem_iff_getElem?.1 hl
    obtain ⟨op, hop, takes⟩ := body.delta?_iff.2 ⟨l, hi, joinable⟩
    exact ⟨op, List.mem_of_getElem? hop, takes⟩

/-- A run starts from every substitution. -/
theorem represents_seed : Represents [] (fun _ => True) Relation.seed where
  rows t := by simp [eq_comm]
  columns σ τ _ _ := trivial

/-- A run of an accepted rule gives what the rule derives from what its operators read. -/
theorem run_ok (h : r.compile = .ok c) (ctx : Context) {facts : Facts} {delta : Option Delta}
    (accepted : r.AcceptedIn (reading facts delta)) (engine : Engine) :
    ∃ out engine', c.run ctx facts delta engine = (.ok out, engine') ∧
      ∀ t, t ∈ out ↔ r.DerivesIn (reading facts delta) t := by
  obtain ⟨-, body⟩ := Rule.forBody_of_compile h
  have anything : ∃ _ : Substitution, True := ⟨default, trivial⟩
  rw [← reading_zero] at accepted
  obtain ⟨out, engine', ran, members⟩ :=
    runFrom_forBody body c ctx represents_seed anything accepted engine
  refine ⟨out, engine', ran, fun t => (members t).trans ?_⟩
  simp only [Rule.DerivesIn, true_and, reading_zero]

/-- A run of a rule that is not accepted gives the error of a tuple that has not its arity. -/
theorem run_refused (h : r.compile = .ok c) (ctx : Context) {facts : Facts} {delta : Option Delta}
    (refused : ¬r.AcceptedIn (reading facts delta)) (engine : Engine) :
    ∃ e engine', c.run ctx facts delta engine = (.error e, engine') ∧
      Literal.Refused (reading facts delta) r.body e := by
  obtain ⟨-, body⟩ := Rule.forBody_of_compile h
  have anything : ∃ _ : Substitution, True := ⟨default, trivial⟩
  rw [← reading_zero] at refused
  obtain ⟨e, engine', ran, wrong⟩ :=
    runFrom_refused body c ctx represents_seed anything refused engine
  rw [reading_zero] at wrong
  exact ⟨e, engine', ran, wrong⟩

/-! ### Against all facts -/

/-- **Against all facts, a compiled rule that is accepted returns what it derives.** -/
theorem evaluate_accepted (h : r.compile = .ok c) (ctx : Context) {facts : Facts}
    (accepted : r.Accepted facts.model) (engine : Engine) :
    ∃ out engine', c.evaluate ctx facts engine = (.ok out, engine') ∧
      ∀ t, t ∈ out ↔ r.Derives facts.model t := by
  have read_stored : r.AcceptedIn (reading facts none) := accepted
  obtain ⟨out, engine', ran, members⟩ := run_ok h ctx read_stored engine
  exact ⟨out, engine', ran, fun t => (members t).trans (Rule.derivesIn_const (M := facts.model))⟩

/-- **One that is not accepted** returns the error of a tuple that has not its arity. -/
theorem evaluate_mismatch (h : r.compile = .ok c) (ctx : Context) {facts : Facts}
    (refused : ¬r.Accepted facts.model) (engine : Engine) :
    ∃ e engine', c.evaluate ctx facts engine = (.error e, engine') ∧ e.Mismatch facts.model := by
  have read_stored : ¬r.AcceptedIn (reading facts none) := refused
  obtain ⟨e, engine', ran, wrong⟩ := run_refused h ctx read_stored engine
  exact ⟨e, engine', ran, wrong.mismatch fun _ _ _ => le_rfl⟩

/-- What an answer tells. -/
theorem of_evaluate_ok (h : r.compile = .ok c) {ctx : Context} {facts : Facts} {engine engine' : Engine}
    {out : Relation} (answer : c.evaluate ctx facts engine = (.ok out, engine')) :
    r.Accepted facts.model ∧ ∀ t, t ∈ out ↔ r.Derives facts.model t := by
  by_cases accepted : r.Accepted facts.model
  · obtain ⟨out', engine'', evaluated, members⟩ := evaluate_accepted h ctx accepted engine
    cases answer.symm.trans evaluated
    exact ⟨accepted, members⟩
  · obtain ⟨e, engine'', evaluated, -⟩ := evaluate_mismatch h ctx accepted engine
    cases answer.symm.trans evaluated

/-- What an error tells. -/
theorem of_evaluate_error (h : r.compile = .ok c) {ctx : Context} {facts : Facts}
    {engine engine' : Engine} {e : EngineError}
    (failed : c.evaluate ctx facts engine = (.error e, engine')) : e.Mismatch facts.model := by
  by_cases accepted : r.Accepted facts.model
  · obtain ⟨out, engine'', evaluated, -⟩ := evaluate_accepted h ctx accepted engine
    cases failed.symm.trans evaluated
  · obtain ⟨e', engine'', evaluated, wrong⟩ := evaluate_mismatch h ctx accepted engine
    cases failed.symm.trans evaluated
    exact wrong

/-- Facts of the right arities are accepted by every rule. -/
theorem evaluate_ok (h : r.compile = .ok c) (ctx : Context) {facts : Facts}
    (arities : facts.HasArities) (engine : Engine) :
    ∃ out engine', c.evaluate ctx facts engine = (.ok out, engine') ∧
      ∀ t, t ∈ out ↔ r.Derives facts.model t :=
  evaluate_accepted h ctx (Rule.acceptedIn_of_right fun _ l _ _ => arities l.predicate) engine

/-! ### For new tuples -/

/-- There is a run for each join whose predicate has new tuples. -/
theorem mem_deltaRuns (h : r.compile = .ok c) {deltas : Facts} {i : Nat} {d : Relation} :
    (i, d) ∈ c.deltaRuns deltas ↔ ∃ l, r.body[i]? = some l ∧ l.isJoinable = true ∧
      deltas.get? l.predicate = some d ∧ d.isEmpty = false := by
  obtain ⟨-, body⟩ := Rule.forBody_of_compile h
  have member : (i, d) ∈ c.deltaRuns deltas ↔ ∃ p, (∃ op, c.operators[i]? = some op ∧
      op.delta? = some p) ∧ deltas.get? p = some d ∧ d.isEmpty = false := by
    rw [deltaRuns, List.mem_filterMap]
    constructor
    · rintro ⟨⟨op, j⟩, hop, found⟩
      obtain ⟨p, takes, found⟩ := Option.bind_eq_some_iff.1 found
      obtain ⟨d', given, found⟩ := Option.bind_eq_some_iff.1 found
      split at found
      · cases found
      · next nonempty =>
        cases found
        exact ⟨p, ⟨op, List.mem_zipIdx_iff_getElem?.1 hop, takes⟩, given,
          Bool.eq_false_iff.2 nonempty⟩
    · rintro ⟨p, ⟨op, hop, takes⟩, given, nonempty⟩
      exact ⟨(op, i), List.mem_zipIdx_iff_getElem?.2 hop, by simp [takes, given, nonempty]⟩
  simp only [member, body.delta?_iff]
  constructor
  · rintro ⟨_, ⟨l, hl, joinable, rfl⟩, given⟩
    exact ⟨l, hl, joinable, given⟩
  · rintro ⟨l, hl, joinable, given⟩
    exact ⟨l.predicate, ⟨l, hl, joinable, rfl⟩, given⟩

/-- One run for new tuples reads them at their join, and the stored facts everywhere else. -/
theorem reading_delta (h : r.compile = .ok c) (facts : Facts) {deltas : Facts} {d : Delta}
    (run : d ∈ c.deltaRuns deltas) : ∀ j l, r.body[j]? = some l →
      reading facts (some d) j l.predicate =
        (if j = d.1 then deltas.model else facts.model) l.predicate := by
  obtain ⟨i, tuples⟩ := d
  obtain ⟨own, hown, -, given, -⟩ := (mem_deltaRuns h).1 run
  have scanned : deltas.scan own.predicate = tuples := by rw [Facts.scan, SortedMap.getD, given]; rfl
  intro j l hl
  by_cases at_i : j = i
  · rw [at_i, hown] at hl
    cases hl
    rw [if_pos at_i, Facts.model, scanned, reading, read, if_pos at_i.symm]
  · rw [if_neg at_i, reading, read, if_neg (Ne.symm at_i)]
    rfl

/-- One run for new tuples derives with them at their join, if the rule is accepted so. -/
theorem run_delta_ok (h : r.compile = .ok c) (ctx : Context) {facts deltas : Facts} {d : Delta}
    (run : d ∈ c.deltaRuns deltas)
    (accepted : r.AcceptedIn fun j => if j = d.1 then deltas.model else facts.model) (engine : Engine) :
    ∃ out engine', c.run ctx facts (some d) engine = (.ok out, engine') ∧
      ∀ t, t ∈ out ↔
        r.DerivesIn (fun j => if j = d.1 then deltas.model else facts.model) t := by
  have same := reading_delta h facts run
  obtain ⟨out, engine', ran, members⟩ :=
    run_ok h ctx (accepted.congr fun j l hl _ => (same j l hl).symm) engine
  exact ⟨out, engine', ran, fun t => (members t).trans
    (Rule.derivesIn_congr fun j l hl _ => same j l hl)⟩

/-- Otherwise it gives the error of a tuple, stored or new, that has not its arity. -/
theorem run_delta_mismatch (h : r.compile = .ok c) (ctx : Context) {facts deltas : Facts} {d : Delta}
    (run : d ∈ c.deltaRuns deltas)
    (refused : ¬r.AcceptedIn fun j => if j = d.1 then deltas.model else facts.model) (engine : Engine) :
    ∃ e engine', c.run ctx facts (some d) engine = (.error e, engine') ∧
      ∀ M, facts.model ≤ M → deltas.model ≤ M → e.Mismatch M := by
  have same := reading_delta h facts run
  obtain ⟨e, engine', ran, wrong⟩ := run_refused h ctx
    (fun accepted => refused (accepted.congr fun j l hl _ => same j l hl)) engine
  refine ⟨e, engine', ran, fun M stored new => wrong.mismatch fun j l hl => ?_⟩
  rw [same j l hl]
  split
  · exact new l.predicate
  · exact stored l.predicate

/-- The runs for new tuples answer one after the other, if the rule is accepted for each. -/
theorem runDeltas_ok (h : r.compile = .ok c) (ctx : Context) {facts deltas : Facts} {ds : List Delta}
    (runs : ∀ d ∈ ds, d ∈ c.deltaRuns deltas)
    (accepted : ∀ d ∈ ds, r.AcceptedIn fun j => if j = d.1 then deltas.model else facts.model)
    (rows : Relation) (engine : Engine) :
    ∃ out engine', c.runDeltas ctx facts ds rows engine = (.ok out, engine') ∧
      ∀ t, t ∈ out ↔ t ∈ rows ∨ ∃ d ∈ ds,
        r.DerivesIn (fun j => if j = d.1 then deltas.model else facts.model) t := by
  induction ds generalizing rows engine with
  | nil => exact ⟨rows, engine, rfl, by simp⟩
  | cons d ds ih =>
    rw [List.forall_mem_cons] at runs accepted
    obtain ⟨more, engine₁, ran, members⟩ := run_delta_ok h ctx runs.1 accepted.1 engine
    obtain ⟨out, engine₂, rest, all⟩ := ih runs.2 accepted.2 (rows.union more) engine₁
    refine ⟨out, engine₂, ?_, fun t => ?_⟩
    · rw [runDeltas, ran]
      exact rest
    · rw [all, SortedSet.mem_union, members, List.exists_mem_cons_iff, or_assoc]

/-- Otherwise the first that is not accepted ends them with its error. -/
theorem runDeltas_mismatch (h : r.compile = .ok c) (ctx : Context) {facts deltas : Facts}
    {ds : List Delta} (runs : ∀ d ∈ ds, d ∈ c.deltaRuns deltas)
    (refused : ∃ d ∈ ds, ¬r.AcceptedIn fun j => if j = d.1 then deltas.model else facts.model)
    (rows : Relation) (engine : Engine) :
    ∃ e engine', c.runDeltas ctx facts ds rows engine = (.error e, engine') ∧
      ∀ M, facts.model ≤ M → deltas.model ≤ M → e.Mismatch M := by
  induction ds generalizing rows engine with
  | nil => simp at refused
  | cons d ds ih =>
    rw [List.forall_mem_cons] at runs
    by_cases first : r.AcceptedIn fun j => if j = d.1 then deltas.model else facts.model
    · obtain ⟨more, engine₁, ran, -⟩ := run_delta_ok h ctx runs.1 first engine
      have later := (List.exists_mem_cons_iff ..).1 refused |>.resolve_left fun own => own first
      obtain ⟨e, engine₂, rest, wrong⟩ := ih runs.2 later (rows.union more) engine₁
      refine ⟨e, engine₂, ?_, wrong⟩
      rw [runDeltas, ran]
      exact rest
    · obtain ⟨e, engine₁, ran, wrong⟩ := run_delta_mismatch h ctx runs.1 first engine
      refine ⟨e, engine₁, ?_, wrong⟩
      rw [runDeltas, ran]

/-- There is a run for each join that has new tuples. -/
theorem forall_deltaRuns_iff (h : r.compile = .ok c) {deltas : Facts} {P : Nat → Prop} :
    (∀ d ∈ c.deltaRuns deltas, P d.1) ↔ ∀ (i : Nat) (l : Literal), r.body[i]? = some l →
      l.isJoinable = true → (deltas.model l.predicate).Nonempty → P i := by
  constructor
  · rintro all i l hl joinable ⟨t, ht⟩
    rw [Facts.mem_model, Facts.scan, SortedMap.getD] at ht
    cases given : deltas.get? l.predicate with
    | none =>
      rw [given] at ht
      exact absurd ht SortedSet.not_mem_empty
    | some d =>
      rw [given] at ht
      have nonempty : d.isEmpty = false := by
        rw [Bool.eq_false_iff]
        exact fun empty => SortedSet.isEmpty_iff.1 empty t ht
      exact all (i, d) ((mem_deltaRuns h).2 ⟨l, hl, joinable, given, nonempty⟩)
  · rintro all ⟨i, d⟩ hd
    obtain ⟨l, hl, joinable, given, nonempty⟩ := (mem_deltaRuns h).1 hd
    refine all i l hl joinable ?_
    by_contra none
    rw [Set.not_nonempty_iff_eq_empty, Set.eq_empty_iff_forall_notMem] at none
    have empty : d.isEmpty = true := by
      refine SortedSet.isEmpty_iff.2 fun t ht => none t ?_
      rw [Facts.mem_model, Facts.scan, SortedMap.getD, given]
      exact ht
    rw [nonempty] at empty
    cases empty

/-- **For new tuples, a compiled rule that is accepted returns what it derives with a new tuple at some
join.** -/
theorem evaluateDelta_ok (h : r.compile = .ok c) (ctx : Context) {facts deltas : Facts}
    (accepted : r.AcceptsNew facts.model deltas.model) (engine : Engine) :
    ∃ out engine', c.evaluateDelta ctx facts deltas engine = (.ok out, engine') ∧
      ∀ t, t ∈ out ↔ r.DerivesNew facts.model deltas.model t := by
  obtain ⟨out, engine', ran, members⟩ := runDeltas_ok h ctx
    (fun d (hd : d ∈ c.deltaRuns deltas) => hd) ((forall_deltaRuns_iff h).2 accepted) ∅ engine
  refine ⟨out, engine', ran, fun t => (members t).trans ?_⟩
  constructor
  · rintro (none | ⟨⟨i, d⟩, hd, derived⟩)
    · exact absurd none SortedSet.not_mem_empty
    · obtain ⟨l, hl, joinable, -⟩ := (mem_deltaRuns h).1 hd
      exact ⟨i, l, hl, joinable, derived⟩
  · rintro ⟨i, l, hl, joinable, derived⟩
    have new_tuple : (deltas.model l.predicate).Nonempty := derived.nonempty_new hl joinable
    by_contra missing
    push Not at missing
    have nowhere := (forall_deltaRuns_iff (P := fun i => ¬r.DerivesIn
      (fun j => if j = i then deltas.model else facts.model) t) h).1 missing.2
    exact nowhere i l hl joinable new_tuple derived

/-- **One that is not accepted** returns the error of a tuple, stored or new, that has not its arity. -/
theorem evaluateDelta_mismatch (h : r.compile = .ok c) (ctx : Context) {facts deltas : Facts}
    (refused : ¬r.AcceptsNew facts.model deltas.model) (engine : Engine) :
    ∃ e engine', c.evaluateDelta ctx facts deltas engine = (.error e, engine') ∧
      ∀ M, facts.model ≤ M → deltas.model ≤ M → e.Mismatch M := by
  refine runDeltas_mismatch h ctx (fun d (hd : d ∈ c.deltaRuns deltas) => hd) ?_ ∅ engine
  by_contra accepted
  push Not at accepted
  exact refused ((forall_deltaRuns_iff h).1 accepted)

/-- What an answer for new tuples tells. -/
theorem of_evaluateDelta_ok (h : r.compile = .ok c) {ctx : Context} {facts deltas : Facts}
    {engine engine' : Engine} {out : Relation}
    (answer : c.evaluateDelta ctx facts deltas engine = (.ok out, engine')) :
    r.AcceptsNew facts.model deltas.model ∧ ∀ t, t ∈ out ↔ r.DerivesNew facts.model deltas.model t := by
  by_cases accepted : r.AcceptsNew facts.model deltas.model
  · obtain ⟨out', engine'', evaluated, members⟩ := evaluateDelta_ok h ctx accepted engine
    cases answer.symm.trans evaluated
    exact ⟨accepted, members⟩
  · obtain ⟨e, engine'', evaluated, -⟩ := evaluateDelta_mismatch h ctx accepted engine
    cases answer.symm.trans evaluated

/-- What an error for new tuples tells. -/
theorem of_evaluateDelta_error (h : r.compile = .ok c) {ctx : Context} {facts deltas : Facts}
    {engine engine' : Engine} {e : EngineError}
    (failed : c.evaluateDelta ctx facts deltas engine = (.error e, engine')) :
    ∀ M, facts.model ≤ M → deltas.model ≤ M → e.Mismatch M := by
  by_cases accepted : r.AcceptsNew facts.model deltas.model
  · obtain ⟨out, engine'', evaluated, -⟩ := evaluateDelta_ok h ctx accepted engine
    cases failed.symm.trans evaluated
  · obtain ⟨e', engine'', evaluated, wrong⟩ := evaluateDelta_mismatch h ctx accepted engine
    cases failed.symm.trans evaluated
    exact wrong

/-! ### Meaning -/

/-- **A compiled rule without products computes its meaning.** On any facts of the right arities, in any
context and with any engine, it answers, and the answer is the set of the head instances under the
substitutions for which every literal of the body holds: a stored literal when its instance is, or is
not, among the facts, and a builtin literal when its relation does, or does not, hold of its instance. -/
theorem evaluate_meaning (h : r.compile = .ok c)
    (no_products : ∀ l ∈ r.body, l.builtin? ≠ some .multiply) (ctx : Context) {facts : Facts}
    (arities : facts.HasArities) (engine : Engine) :
    ∃ out engine', c.evaluate ctx facts engine = (.ok out, engine') ∧
      ∀ t, t ∈ out ↔ ∃ σ, r.FiresIn facts.model σ ∧ r.headInstance σ = t := by
  obtain ⟨out, engine', evaluated, members⟩ := evaluate_ok h ctx arities engine
  exact ⟨out, engine', evaluated, fun t =>
    (members t).trans (Rule.derives_iff_of_no_products no_products)⟩

/-- A rule with literals of every kind. Two of them have no variables; one repeats a variable; one has
a variable inside a term, beside a constant, and shares none with those before it. -/
def loopRule : Rule :=
  ⟨.new "pair" [.var "X", .app "cell" [.var "Y", .var "X"], .var "Z"],
    [.pos (.new "on" []), .pos (.ofInts "limit" [3]), .pos (.ofVars "edge" ["X", "X"]),
      .pos (.new "box" [.app "cell" [.var "Y"], .int 7]), .pos (.ofVars "ADD" ["X", "Y", "Z"]),
      .neg (.ofVars "edge" ["Y", "Z"]), .neg (.new "GREATER" [.var "Z", .int 9])]⟩

/-- Two loops and two boxes of the right kind. -/
def loops : Facts := Facts.ofList
  [(⟨"on", 0⟩, SortedSet.ofList [[]]), (⟨"limit", 1⟩, SortedSet.ofList [.ofInts [3]]),
    (⟨"edge", 2⟩, SortedSet.ofList [.ofInts [1, 1], .ofInts [1, 2], .ofInts [2, 2], .ofInts [4, 5]]),
    (⟨"box", 2⟩, SortedSet.ofList
      [[.app "cell" [.int 1], .int 6], [.app "cell" [.int 4], .int 7], [.app "cell" [.int 8], .int 7]])]

/-- Of the four pairs of a loop and a box, each negated literal excludes one. -/
theorem loopRule_meaning :
    (∀ l ∈ loopRule.body, l.builtin? ≠ some .multiply) ∧ loops.HasArities ∧
    ∃ c out engine', loopRule.compile = .ok c ∧ c.evaluate {} loops {} = (.ok out, engine') ∧
      out.toList = [[.int 1, .app "cell" [.int 8, .int 1], .int 9],
        [.int 2, .app "cell" [.int 4, .int 2], .int 6]] ∧
      ∀ t, t ∈ out ↔ ∃ σ, loopRule.FiresIn loops.model σ ∧ loopRule.headInstance σ = t := by
  have no_products : ∀ l ∈ loopRule.body, l.builtin? ≠ some .multiply := by decide +kernel
  have arities : loops.HasArities := Facts.hasArities_ofList (by decide)
  have answer : loopRule.compile.toOption.map (fun c =>
      (c.evaluate {} loops {}).1.toOption.map SortedSet.toList) =
      some (some [[.int 1, .app "cell" [.int 8, .int 1], .int 9],
        [.int 2, .app "cell" [.int 4, .int 2], .int 6]]) := by decide +kernel
  cases compiled : loopRule.compile with
  | error e =>
    rw [compiled] at answer
    cases answer
  | ok c =>
    obtain ⟨out, engine', evaluated, members⟩ := evaluate_meaning compiled no_products {} arities {}
    rw [compiled] at answer
    simp only [Except.toOption, Option.map_some, evaluated, Option.some.injEq] at answer
    exact ⟨no_products, arities, c, out, engine', rfl, evaluated, answer, members⟩

end CompiledRule

end Datalog
