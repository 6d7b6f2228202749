import Datalog.Proofs.SafeOrders
import Datalog.Reasoner

/-!
# What queries answer

A query is answered by the rule that has the atom as its head's terms and as its only literal. The rule
takes a stored tuple apart into values of the atom's variables and builds a tuple from them again; for an
instance of the atom that is the tuple itself (`Reasoner.query_exact`).
-/

namespace Datalog.Reasoner

variable {a : Atom}

theorem isJoinable_of_stored (stored : Builtin.ofAtom? a = none) : (Literal.pos a).isJoinable = true :=
  Literal.isJoinable_iff.2 ⟨stored, rfl⟩

/-- The rule of a query on stored facts is safe: its one literal binds all variables of its head. -/
theorem exists_compile_queryRule (stored : Builtin.ofAtom? a = none) :
    ∃ c, (queryRule a).compile = .ok c := by
  have joinable := isJoinable_of_stored stored
  have safe : (queryRule a).Safe := by
    constructor
    · intro l hl _
      rw [List.mem_singleton.1 hl]
      exact ⟨[], by simp, .inl joinable⟩
    · intro l hl neg
      rw [List.mem_singleton.1 hl] at neg
      cases neg
    · intro x hx
      exact .joined (l := .pos a) List.mem_cons_self joinable hx
  exact Rule.exists_compile_iff.2 ⟨safe, .inl joinable, trivial⟩

/-- The rule of a query derives the stored tuples that are instances of the atom. -/
theorem derives_queryRule_iff (stored : Builtin.ofAtom? a = none) {M : Interpretation} {t : Tuple} :
    (queryRule a).Derives M t ↔ t ∈ M a.predicate ∧ ∃ σ, a.terms.subst σ = t := by
  have joinable := isJoinable_of_stored stored
  have no_products : ∀ l ∈ (queryRule a).body, l.builtin? ≠ some .multiply := by
    intro l hl
    rw [List.mem_singleton.1 hl, (Literal.isJoinable_iff.1 joinable).1]
    exact nofun
  have fires (σ : Substitution) :
      (queryRule a).FiresIn M σ ↔ a.terms.subst σ ∈ M a.predicate :=
    List.forall_mem_singleton.trans (Literal.holdsIn_of_isJoinable joinable)
  rw [Rule.derives_iff_of_no_products no_products]
  constructor
  · rintro ⟨σ, fired, rfl⟩
    exact ⟨(fires σ).1 fired, σ, rfl⟩
  · rintro ⟨member, σ, rfl⟩
    exact ⟨σ, (fires σ).2 member, rfl⟩

/-- The rule of a query is accepted if the stored tuples of the predicate have its arity. -/
theorem accepted_queryRule_iff (stored : Builtin.ofAtom? a = none) {f : Facts} :
    (queryRule a).Accepted f.model ↔ (f.scan a.predicate).HasArity a.predicate.arity := by
  constructor
  · exact fun accepted => accepted 0 (.pos a) rfl stored ⟨default, trivial, Literal.satisfied_nil⟩
  · intro arity
    refine Rule.acceptedIn_of_right fun i l member _ => ?_
    rw [List.mem_singleton.1 (List.mem_of_getElem? member)]
    exact arity

theorem query_of_compile (r : Reasoner) {c : CompiledRule} (compiled : (queryRule a).compile = .ok c) :
    r.query a =
      ((c.evaluate {} r.facts r.engine).1, { r with engine := (c.evaluate {} r.facts r.engine).2 }) := by
  unfold query
  rw [compiled]

/-- **A query answers with exactly the stored tuples that match.** As long as the stored tuples of its
predicate have their arity, a query on stored facts is answered, with those of them that are instances of
the atom under some substitution; the reasoner keeps its store and all else but its engine. -/
theorem query_exact (r : Reasoner) (stored : Builtin.ofAtom? a = none)
    (arity : (r.relation a.predicate).HasArity a.predicate.arity) :
    ∃ out engine, r.query a = (.ok out, { r with engine }) ∧
      ∀ t, t ∈ out ↔ t ∈ r.relation a.predicate ∧ ∃ σ, a.terms.subst σ = t := by
  obtain ⟨c, compiled⟩ := exists_compile_queryRule stored
  obtain ⟨out, engine, answer, members⟩ :=
    CompiledRule.evaluate_accepted compiled {} ((accepted_queryRule_iff stored).2 arity) r.engine
  refine ⟨out, engine, ?_, fun t => (members t).trans (derives_queryRule_iff stored)⟩
  rw [query_of_compile r compiled, answer]

/-- A query on stored facts fails exactly if some stored tuple of its predicate has another arity. -/
theorem query_fails_iff (r : Reasoner) (stored : Builtin.ofAtom? a = none) :
    (∃ e, (r.query a).1 = .error e) ↔ ∃ t ∈ r.relation a.predicate, t.arity ≠ a.predicate.arity := by
  obtain ⟨c, compiled⟩ := exists_compile_queryRule stored
  rw [query_of_compile r compiled]
  by_cases accepted : (queryRule a).Accepted r.facts.model
  · obtain ⟨out, engine, answer, -⟩ := CompiledRule.evaluate_accepted compiled {} accepted r.engine
    rw [answer]
    refine iff_of_false (fun ⟨e, failed⟩ => by cases failed) fun ⟨t, ht, other⟩ => ?_
    exact other ((accepted_queryRule_iff stored).1 accepted t ht)
  · obtain ⟨e, engine, failed, -⟩ := CompiledRule.evaluate_mismatch compiled {} accepted r.engine
    refine iff_of_true ⟨e, congrArg Prod.fst failed⟩ ?_
    rw [accepted_queryRule_iff stored] at accepted
    simpa [Relation.HasArity, relation] using accepted

/-- A query with a constant, a variable that comes twice, and one inside a term. -/
def cellQuery : Atom := .new "pair" [.var "X", .app "cell" [.var "Y", .var "X"], .int 7]

/-- Pairs that match and pairs that do not, and tuples of another predicate, one of a wrong arity. -/
def pairReasoner : Reasoner where
  settings := {}
  strategy := .dependency
  store := .memory (Facts.ofList
    [(⟨"pair", 3⟩, SortedSet.ofList
      [[.int 1, .app "cell" [.int 2, .int 1], .int 7], [.int 1, .app "cell" [.int 2, .int 3], .int 7],
        [.int 4, .app "cell" [.int 5, .int 4], .int 8], [.int 6, .int 6, .int 7],
        [.app "cell" [.int 0], .app "cell" [.str "a", .app "cell" [.int 0]], .int 7]]),
      (⟨"edge", 2⟩, SortedSet.ofList [.ofInts [1, 2], .ofInts [3]])])

/-- Two of the pairs match. -/
theorem pairReasoner_cellQuery :
    Builtin.ofAtom? cellQuery = none ∧
    (pairReasoner.relation cellQuery.predicate).HasArity cellQuery.predicate.arity ∧
    ∃ out engine, pairReasoner.query cellQuery = (.ok out, { pairReasoner with engine }) ∧
      out.toList = [[.int 1, .app "cell" [.int 2, .int 1], .int 7],
        [.app "cell" [.int 0], .app "cell" [.str "a", .app "cell" [.int 0]], .int 7]] ∧
      ∀ t, t ∈ out ↔
        t ∈ pairReasoner.relation cellQuery.predicate ∧ ∃ σ, cellQuery.terms.subst σ = t := by
  have stored : Builtin.ofAtom? cellQuery = none := by decide +kernel
  have arity : (pairReasoner.relation cellQuery.predicate).HasArity cellQuery.predicate.arity := by
    have listed : ∀ t ∈ (pairReasoner.relation cellQuery.predicate).toList,
        t.arity = cellQuery.predicate.arity := by decide +kernel
    exact listed
  obtain ⟨out, engine, answer, members⟩ := query_exact pairReasoner stored arity
  have rows : (pairReasoner.query cellQuery).1.toOption.map SortedSet.toList =
      some [[.int 1, .app "cell" [.int 2, .int 1], .int 7],
        [.app "cell" [.int 0], .app "cell" [.str "a", .app "cell" [.int 0]], .int 7]] := by
    decide +kernel
  simp only [answer, Except.toOption, Option.map_some, Option.some.injEq] at rows
  exact ⟨stored, arity, out, engine, answer, rows, members⟩

end Datalog.Reasoner
