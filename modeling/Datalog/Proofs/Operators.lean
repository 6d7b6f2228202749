import Datalog.JoinOrder
import Datalog.Operator
import Datalog.Proofs.Meaning

/-!
# What the operators of a rule compute

The rows of a running relation stand for the substitutions that satisfy the literals so far: they
hold the values of the columns (`Represents`). Each operator adds its literal to what the
substitutions have to satisfy (`represents_ofLiteral`), with one proviso: a product that has to find
one of its factors loses the substitutions whose other factor is zero (`Literal.Undetermined`),
because no quotient then determines the factor.
-/

namespace Datalog

/-- The rows are the values that the substitutions of `Sat` give the columns `S`, and whether a
substitution is one of them depends on these columns only. -/
structure Represents (S : List String) (Sat : Substitution → Prop) (R : Relation) : Prop where
  rows : ∀ t, t ∈ R ↔ ∃ σ, Sat σ ∧ S.map σ = t
  columns : ∀ σ τ, (∀ x ∈ S, σ x = τ x) → Sat σ → Sat τ

/-- The literal asks for one factor of a product whose other factor is zero. -/
def Literal.Undetermined (bound : List String) (σ : Substitution) (l : Literal) : Prop :=
  l.positive = true ∧ l.builtin? = some .multiply ∧ ∃ i < 2,
    l.atom.unboundPositions bound = [i] ∧ (l.atom.terms.subst σ)[1 - i]? = some (.int 0)

/-! ### Bound and unbound arguments -/

section Positions

variable {α : Type} {p : α → Bool}

theorem positions_eq_nil_iff {l : List α} {k : Nat} :
    ((l.zipIdx k).filter fun (a, _) => p a).map Prod.snd = [] ↔ ∀ a ∈ l, p a = false := by
  induction l generalizing k with
  | nil => simp
  | cons a l ih =>
    cases h : p a with
    | true => simp [h]
    | false =>
      rw [List.zipIdx_cons, List.filter_cons_of_neg (by simp [h]), ih]
      simp [h]

/-- The one member that passes a test stands between members that do not. -/
theorem split_of_positions {l : List α} {k i : Nat}
    (h : ((l.zipIdx k).filter fun (a, _) => p a).map Prod.snd = [i]) :
    ∃ pre a post, l = pre ++ a :: post ∧ k + pre.length = i ∧ p a = true ∧
      ∀ b ∈ pre ++ post, p b = false := by
  induction l generalizing k with
  | nil => simp at h
  | cons a l ih =>
    rw [List.zipIdx_cons] at h
    cases ha : p a with
    | true =>
      rw [List.filter_cons_of_pos (by simp [ha]), List.map_cons, List.cons.injEq] at h
      exact ⟨[], a, l, rfl, h.1, ha, positions_eq_nil_iff.1 h.2⟩
    | false =>
      rw [List.filter_cons_of_neg (by simp [ha])] at h
      obtain ⟨pre, b, post, rfl, rfl, hb, others⟩ := ih h
      refine ⟨a :: pre, b, post, rfl, by simp; omega, hb, ?_⟩
      intro c hc
      rcases List.mem_cons.1 hc with rfl | hc
      · exact ha
      · exact others c hc

end Positions

namespace Atom

theorem mem_varNames {a : Atom} {x : String} : x ∈ a.varNames ↔ ∃ t ∈ a.terms, x ∈ t.occurrences :=
  Tuple.mem_varNames

theorem unboundPositions_eq_nil_iff {a : Atom} {bound : List String} :
    a.unboundPositions bound = [] ↔ ∀ x ∈ a.varNames, x ∈ bound := by
  rw [unboundPositions, positions_eq_nil_iff (p := fun t : Term => t.occurrences.any (· ∉ bound))]
  simp only [mem_varNames, List.any_eq_false, decide_eq_true_eq, not_not]
  exact ⟨fun h x ⟨t, ht, hx⟩ => h t ht x hx, fun h t ht x hx => h x ⟨t, ht, hx⟩⟩

/-- Only which variables are bound matters. -/
theorem unboundPositions_congr {a : Atom} {bound bound' : List String}
    (h : ∀ x, x ∈ bound ↔ x ∈ bound') : a.unboundPositions bound = a.unboundPositions bound' := by
  unfold unboundPositions
  simp only [h]

theorem split_of_unboundPositions {a : Atom} {bound : List String} {i : Nat}
    (h : a.unboundPositions bound = [i]) :
    ∃ pre t post, a.terms = pre ++ t :: post ∧ pre.length = i ∧ (∃ x ∈ t.occurrences, x ∉ bound) ∧
      ∀ u ∈ pre ++ post, ∀ x ∈ u.occurrences, x ∈ bound := by
  obtain ⟨pre, t, post, split, length, unbound, others⟩ :=
    split_of_positions (p := fun t : Term => t.occurrences.any (· ∉ bound)) h
  refine ⟨pre, t, post, split, by omega, by simpa using unbound, fun u hu x hx => ?_⟩
  have := others u hu
  simp only [List.any_eq_false, decide_eq_true_eq, not_not] at this
  exact this x hx

theorem firstUnbound?_eq_none_iff {a : Atom} {bound : List String} :
    a.firstUnbound? bound = none ↔ ∀ x ∈ a.varNames, x ∈ bound := by
  simp [firstUnbound?]

end Atom

theorem Literal.Undetermined.congr {bound bound' : List String} {σ : Substitution} {l : Literal}
    (same : ∀ x, x ∈ bound ↔ x ∈ bound') (h : l.Undetermined bound σ) :
    l.Undetermined bound' σ := by
  obtain ⟨pos, mul, i, hi, unbound, zero⟩ := h
  exact ⟨pos, mul, i, hi, Atom.unboundPositions_congr same ▸ unbound, zero⟩

namespace Builtin

theorem mode_eq_check_iff {b : Builtin} {a : Atom} {bound : List String} :
    b.mode a bound = .check ↔ a.unboundPositions bound = [] := by
  unfold mode
  split
  · simp [*]
  · next i h =>
    rw [h]
    split
    · split <;> simp
    · simp
  · next h _ => simpa using h

/-- A builtin binds the variable at its one unbound position. -/
structure BindsAt (b : Builtin) (a : Atom) (bound : List String) (x : String)
    (pre post : List Term) : Prop where
  terms : a.terms = pre ++ .var x :: post
  bindable : b.canBind pre.length = true
  unbound : x ∉ bound
  others : ∀ u ∈ pre ++ post, ∀ y ∈ u.occurrences, y ∈ bound
  position : a.unboundPositions bound = [pre.length]

theorem bindsAt_of_mode {b : Builtin} {a : Atom} {bound : List String} {x : String}
    (h : b.mode a bound = .bind x) : ∃ pre post, b.BindsAt a bound x pre post := by
  unfold mode at h
  split at h
  · cases h
  · next i hi =>
    obtain ⟨pre, t, post, terms, rfl, unbound, others⟩ := Atom.split_of_unboundPositions hi
    have at_position : a.terms[pre.length]? = some t := by simp [terms]
    rw [at_position, Option.bind_some] at h
    cases t with
    | var y =>
      simp only [Term.varName?] at h
      split at h
      · next bindable =>
        cases h
        obtain ⟨z, hz, fresh⟩ := unbound
        rw [Term.occurrences, List.mem_singleton] at hz
        exact ⟨pre, post, terms, bindable, hz ▸ fresh, others, hi⟩
      · cases h
    | const c => simp [Term.varName?] at h
    | app f ts => simp [Term.varName?] at h
  · cases h

end Builtin

/-! ### Columns -/

namespace Operator

theorem zipIdx_map_getElem? {vars : List String} {τ : Substitution} {x : String} {i : Nat}
    (h : (x, i) ∈ vars.zipIdx) : (vars.map τ)[i]? = some (τ x) := by
  have := List.mem_zipIdx_iff_getElem?.1 h
  simp only at this
  rw [List.getElem?_map, this]
  rfl

theorem mem_of_idxOf? {S : List String} {x : String} {k : Nat} (h : S.idxOf? x = some k) : x ∈ S :=
  List.isSome_idxOf?.1 (by rw [h]; rfl)

theorem idxOf?_map_getElem? {S : List String} {σ : Substitution} {x : String} {k : Nat}
    (h : S.idxOf? x = some k) : (S.map σ)[k]? = some (σ x) := by
  obtain ⟨hk, rfl, -⟩ := List.idxOf?_eq_some_iff.1 h
  rw [List.getElem?_map, List.getElem?_eq_getElem hk]
  rfl

/-- A choice among the numbered variables of a pattern takes their values from a row. -/
theorem filterMap_zipIdx_eq {vars : List String} {f : String × Nat → Option Term}
    {g : String → Option Term} (h : ∀ x i, (x, i) ∈ vars.zipIdx → f (x, i) = g x) :
    vars.zipIdx.filterMap f = vars.filterMap g := by
  calc vars.zipIdx.filterMap f
      = vars.zipIdx.filterMap (fun e => g e.1) := List.filterMap_congr fun e he => h e.1 e.2 he
    _ = (vars.zipIdx.map Prod.fst).filterMap g := by rw [List.filterMap_map]; rfl
    _ = vars.filterMap g := by rw [List.zipIdx_map_fst]

theorem filterMap_if (vars : List String) (P : String → Prop) [DecidablePred P] (τ : Substitution) :
    vars.filterMap (fun x => if P x then some (τ x) else none) =
      (vars.filter fun x => P x).map τ := by
  induction vars with
  | nil => rfl
  | cons x vars ih => by_cases h : P x <;> simp [h, ih]

/-- On the key columns of a row of the schema stand the values of the shared variables. -/
theorem project_sharedColumns_left (S vars : List String) (σ : Substitution) :
    Tuple.project (S.map σ) ((sharedColumns S vars).map Prod.fst) =
      (vars.filter fun x => x ∈ S).map σ := by
  rw [← filterMap_if, Tuple.project, sharedColumns, List.filterMap_map, List.filterMap_filterMap]
  apply filterMap_zipIdx_eq
  intro x i _
  cases h : S.idxOf? x with
  | none => simp [h, List.idxOf?_eq_none_iff.1 h]
  | some k =>
    simp only [h, Option.map_some, Option.bind_some, if_pos (mem_of_idxOf? h)]
    exact idxOf?_map_getElem? h

/-- On the key columns of a row of the pattern stand the values of the shared variables. -/
theorem project_sharedColumns_right (S vars : List String) (τ : Substitution) :
    Tuple.project (vars.map τ) ((sharedColumns S vars).map Prod.snd) =
      (vars.filter fun x => x ∈ S).map τ := by
  rw [← filterMap_if, Tuple.project, sharedColumns, List.filterMap_map, List.filterMap_filterMap]
  apply filterMap_zipIdx_eq
  intro x i hx
  have value := zipIdx_map_getElem? (τ := τ) hx
  cases h : S.idxOf? x with
  | none => simp [h, List.idxOf?_eq_none_iff.1 h]
  | some k =>
    simp only [h, Option.map_some, Option.bind_some, if_pos (mem_of_idxOf? h)]
    exact value

/-- On the other columns of a row of the pattern stand the values of the new variables. -/
theorem project_newColumns (S vars : List String) (τ : Substitution) :
    Tuple.project (vars.map τ) (newColumns S vars) = (vars.filter fun x => x ∉ S).map τ := by
  rw [← filterMap_if, Tuple.project, newColumns, List.filterMap_map, List.filterMap_filter]
  apply filterMap_zipIdx_eq
  intro x i hx
  have value := zipIdx_map_getElem? (τ := τ) hx
  by_cases h : x ∈ S
  · simp [h]
  · simpa [h] using value

/-! ### Reading facts -/

/-- An instance of a pattern passes the filter on the pattern's ground terms. -/
theorem accepts_subst (ts : Tuple) (σ : Substitution) :
    ConstantFilter.accepts ⟨ts.length, ConstantFilter.groundTerms ts⟩ (ts.subst σ) = true := by
  simp only [ConstantFilter.accepts, Tuple.length_subst, beq_self_eq_true, Bool.true_and,
    List.all_eq_true]
  rintro ⟨i, c⟩ hc
  simp only [ConstantFilter.groundTerms, List.mem_map, List.mem_filter, Prod.exists] at hc
  obtain ⟨t, j, ⟨ht, ground⟩, heq⟩ := hc
  obtain ⟨rfl, rfl⟩ := Prod.mk.inj heq
  have at_position := List.mem_zipIdx_iff_getElem?.1 ht
  simp only at at_position
  rw [beq_iff_eq, Tuple.subst, List.getElem?_map, at_position, Option.map_some,
    Term.subst_of_isGround ground]

/-- Scanning facts for an atom yields the values for which the atom is a fact. -/
theorem mem_rows_scan {a : Atom} {src : Sources} {row : Tuple} :
    row ∈ (scan a).rows src ↔
      ∃ τ, a.terms.subst τ ∈ src.getD source ∅ ∧ a.varNames.map τ = row := by
  have filtered : ∀ τ, a.terms.subst τ ∈ Plan.rows src
      (if (ConstantFilter.groundTerms a.terms).isEmpty then .input source a.predicate.arity
        else .filter (.input source a.predicate.arity)
          ⟨a.terms.length, ConstantFilter.groundTerms a.terms⟩) ↔
      a.terms.subst τ ∈ src.getD source ∅ := by
    intro τ
    split
    · rfl
    · rw [Plan.rows, SortedSet.mem_filter, and_iff_left (accepts_subst a.terms τ)]
      rfl
  rw [scan, Plan.rows, Relation.mem_filterMap]
  constructor
  · rintro ⟨t, ht, happly⟩
    obtain ⟨τ, rfl, rfl⟩ := Pattern.apply_eq_some_iff.1 happly
    exact ⟨τ, (filtered τ).1 ht, rfl⟩
  · rintro ⟨τ, ht, rfl⟩
    exact ⟨_, (filtered τ).2 ht, Pattern.apply_eq_some_iff.2 ⟨τ, rfl, rfl⟩⟩

/-! ### Joins -/

/-- A join adds that the instance of its atom is a fact. -/
theorem represents_ofJoin {S : List String} {a : Atom} {Sat : Substitution → Prop} {R : Relation}
    (rep : Represents S Sat R) {src : Sources} (input : src.getD running ∅ = R) :
    Represents (ofJoin S a).schema (fun σ => Sat σ ∧ a.terms.subst σ ∈ src.getD source ∅)
      ((ofJoin S a).plan.rows src) where
  rows t := by
    have joined : t ∈ (ofJoin S a).plan.rows src ↔ ∃ σ, Sat σ ∧ ∃ τ,
        a.terms.subst τ ∈ src.getD source ∅ ∧ (∀ x ∈ a.varNames, x ∈ S → σ x = τ x) ∧
        t = S.map σ ++ (a.varNames.filter fun x => x ∉ S).map τ := by
      simp only [ofJoin, Plan.rows, input, Relation.mem_join, mem_rows_scan]
      constructor
      · rintro ⟨row, hrow, _, ⟨τ, fact, rfl⟩, keys, rfl⟩
        obtain ⟨σ, sat, rfl⟩ := (rep.rows _).1 hrow
        rw [project_sharedColumns_left, project_sharedColumns_right, List.map_inj_left] at keys
        rw [project_newColumns]
        exact ⟨σ, sat, τ, fact, fun x hx hS => keys x (by simp [hx, hS]), rfl⟩
      · rintro ⟨σ, sat, τ, fact, agree, rfl⟩
        refine ⟨_, (rep.rows _).2 ⟨σ, sat, rfl⟩, _, ⟨τ, fact, rfl⟩, ?_, ?_⟩
        · rw [project_sharedColumns_left, project_sharedColumns_right, List.map_inj_left]
          intro x hx
          simp only [List.mem_filter, decide_eq_true_eq] at hx
          exact agree x hx.1 hx.2
        · rw [project_newColumns]
    rw [joined]
    constructor
    · rintro ⟨σ, sat, τ, fact, agree, rfl⟩
      -- The row of the running relation and the fact agree on what they share: glue them.
      let glued : Substitution := fun x => if x ∈ S then σ x else τ x
      have on_schema : ∀ x ∈ S, σ x = glued x := fun x hx => by simp [glued, hx]
      have on_atom : ∀ x ∈ a.varNames, τ x = glued x := by
        intro x hx
        by_cases hS : x ∈ S
        · simp [glued, hS, agree x hx hS]
        · simp [glued, hS]
      refine ⟨glued, ⟨rep.columns σ glued on_schema sat, ?_⟩, ?_⟩
      · rwa [← Tuple.subst_eq_subst_iff.2 on_atom]
      · rw [ofJoin, List.map_append]
        congr 1
        · exact (List.map_congr_left on_schema).symm
        · exact (List.map_congr_left fun x hx => on_atom x (List.mem_of_mem_filter hx)).symm
    · rintro ⟨σ, ⟨sat, fact⟩, rfl⟩
      exact ⟨σ, sat, σ, fact, fun _ _ _ => rfl, by simp [ofJoin]⟩
  columns σ τ agree h := by
    have on_schema : ∀ x ∈ S, σ x = τ x := fun x hx => agree x (by simp [ofJoin, hx])
    have on_atom : ∀ x ∈ a.varNames, σ x = τ x := by
      intro x hx
      by_cases hS : x ∈ S
      · exact on_schema x hS
      · exact agree x (by simp [ofJoin, hx, hS])
    exact ⟨rep.columns σ τ on_schema h.1, by rw [← Tuple.subst_eq_subst_iff.2 on_atom]; exact h.2⟩

/-- An antijoin adds that the instance of its atom is no fact. -/
theorem represents_antijoin {S : List String} {a : Atom} {Sat : Substitution → Prop} {R : Relation}
    (rep : Represents S Sat R) (bound : ∀ x ∈ a.varNames, x ∈ S) {src : Sources}
    (input : src.getD running ∅ = R) :
    Represents S (fun σ => Sat σ ∧ a.terms.subst σ ∉ src.getD source ∅)
      (Plan.rows src (.antijoin (.input running S.length) (scan a)
        ((sharedColumns S a.varNames).map Prod.fst) ((sharedColumns S a.varNames).map Prod.snd))) where
  rows t := by
    have shared : (a.varNames.filter fun x => x ∈ S) = a.varNames := by
      simpa [List.filter_eq_self] using bound
    simp only [Plan.rows, input, Relation.mem_antijoin, mem_rows_scan]
    constructor
    · rintro ⟨ht, other⟩
      obtain ⟨σ, sat, rfl⟩ := (rep.rows _).1 ht
      refine ⟨σ, ⟨sat, fun fact => other _ ⟨σ, fact, rfl⟩ ?_⟩, rfl⟩
      rw [project_sharedColumns_left, project_sharedColumns_right]
    · rintro ⟨σ, ⟨sat, absent⟩, rfl⟩
      refine ⟨(rep.rows _).2 ⟨σ, sat, rfl⟩, ?_⟩
      rintro _ ⟨τ, fact, rfl⟩ keys
      rw [project_sharedColumns_left, project_sharedColumns_right, shared, List.map_inj_left] at keys
      rw [← Tuple.subst_eq_subst_iff.2 keys] at fact
      exact absent fact
  columns σ τ agree h := by
    have same := Tuple.subst_eq_subst_iff.2 fun x hx => agree x (bound x hx)
    exact ⟨rep.columns σ τ agree h.1, by rw [← same]; exact h.2⟩

/-! ### Builtins -/

/-- The arguments of a call on a row are the instances of those whose variables are columns. -/
theorem arguments_map (c : BuiltinCall) (σ : Substitution) :
    c.arguments (c.schema.map σ) = c.args.map (Term.substWithin? c.schema σ) :=
  List.map_congr_left fun t _ => Term.instantiate?_map c.schema σ t

theorem substWithin?_of_bound {S : List String} {ts : Tuple} (σ : Substitution)
    (bound : ∀ t ∈ ts, ∀ x ∈ t.occurrences, x ∈ S) :
    ts.map (Term.substWithin? S σ) = (ts.subst σ).map some := by
  rw [Tuple.subst, List.map_map]
  apply List.map_congr_left
  intro t ht
  rw [Term.substWithin?, if_pos (bound t ht)]
  rfl

/-- A call with all arguments bound keeps the rows for which the relation holds; negated, the
others. -/
theorem represents_check {S : List String} {b : Builtin} {a : Atom} {Sat : Substitution → Prop}
    {R : Relation} (rep : Represents S Sat R) (bound : ∀ x ∈ a.varNames, x ∈ S) (negated : Bool)
    {src : Sources}
    (input : src.getD running ∅ = R) :
    Represents (call S b a none negated).schema
      (fun σ => Sat σ ∧ (b.Relates (a.terms.subst σ) ↔ negated = false))
      ((call S b a none negated).plan.rows src) where
  rows t := by
    have applied (σ : Substitution) :
        BuiltinCall.apply ⟨b, a.terms, S, none, negated⟩ (S.map σ) = some t ↔
          (b.Relates (a.terms.subst σ) ↔ negated = false) ∧ S.map σ = t := by
      have args : a.terms.map (Term.substWithin? S σ) = (a.terms.subst σ).map some :=
        substWithin?_of_bound σ fun t ht x hx => bound x (Atom.mem_varNames.2 ⟨t, ht, hx⟩)
      rw [← Builtin.holds_iff_relates, BuiltinCall.apply, arguments_map, args, Builtin.apply_given]
      cases hh : b.holds (a.terms.subst σ) <;> cases negated <;> simp
    simp only [call, Plan.rows, input, Relation.mem_filterMap, Option.toList_none, List.append_nil]
    constructor
    · rintro ⟨row, hrow, happly⟩
      obtain ⟨σ, sat, rfl⟩ := (rep.rows _).1 hrow
      obtain ⟨h, heq⟩ := (applied σ).1 happly
      exact ⟨σ, ⟨sat, h⟩, heq⟩
    · rintro ⟨σ, ⟨sat, h⟩, heq⟩
      exact ⟨_, (rep.rows _).2 ⟨σ, sat, rfl⟩, (applied σ).2 ⟨h, heq⟩⟩
  columns σ τ agree h := by
    have on_schema : ∀ x ∈ S, σ x = τ x := fun x hx => agree x (by simp [call, hx])
    have same := Tuple.subst_eq_subst_iff.2 fun x hx => on_schema x (bound x hx)
    exact ⟨rep.columns σ τ on_schema h.1, by rw [← same]; exact h.2⟩

/-- The arguments of a call that binds a variable: all but that one are given. -/
theorem arguments_bind {S : List String} {b : Builtin} {a : Atom} {x : String} {pre post : List Term}
    (binds : b.BindsAt a S x pre post) (σ : Substitution) :
    a.terms.map (Term.substWithin? S σ) =
      (Tuple.subst σ pre).map some ++ none :: (Tuple.subst σ post).map some := by
  have missing : Term.substWithin? S σ (.var x) = none := by
    simp [Term.substWithin?, Term.occurrences, binds.unbound]
  rw [binds.terms, List.map_append, List.map_cons, missing,
    substWithin?_of_bound σ fun t ht => binds.others t (List.mem_append_left _ ht),
    substWithin?_of_bound σ fun t ht => binds.others t (List.mem_append_right _ ht)]

theorem subst_of_bindsAt {S : List String} {b : Builtin} {a : Atom} {x : String}
    {pre post : List Term} (binds : b.BindsAt a S x pre post) (σ : Substitution) :
    a.terms.subst σ = Tuple.subst σ pre ++ σ x :: Tuple.subst σ post := by
  rw [binds.terms, Tuple.subst, List.map_append, List.map_cons]
  rfl

theorem idxOf?_none (pre post : List Term) :
    (pre.map some ++ none :: post.map some).idxOf? none = some pre.length := by
  induction pre with
  | nil => simp [List.idxOf?_cons]
  | cons t pre ih => simp [List.idxOf?_cons, ih]

/-- The given arguments depend on the columns only. -/
theorem subst_eq_of_columns {S : List String} {b : Builtin} {a : Atom} {x : String}
    {pre post : List Term} (binds : b.BindsAt a S x pre post) {σ τ : Substitution}
    (agree : ∀ y ∈ S, σ y = τ y) :
    Tuple.subst σ pre = Tuple.subst τ pre ∧ Tuple.subst σ post = Tuple.subst τ post := by
  have same (ts : Tuple) (h : ∀ u ∈ ts, u ∈ pre ++ post) : ts.subst σ = ts.subst τ := by
    refine Tuple.subst_eq_subst_iff.2 fun y hy => agree y ?_
    obtain ⟨u, hu, hy⟩ := Tuple.mem_varNames.1 hy
    exact binds.others u (h u hu) y hy
  exact ⟨same pre fun u => List.mem_append_left _, same post fun u => List.mem_append_right _⟩

/-- What a call that binds a variable makes of a row. -/
theorem apply_bind_eq_some_iff {S : List String} {b : Builtin} {a : Atom} {x : String}
    {pre post : List Term} (binds : b.BindsAt a S x pre post) (σ : Substitution) {t : Tuple} :
    BuiltinCall.apply ⟨b, a.terms, S, some x, false⟩ (S.map σ) = some t ↔
      ∃ v, t = S.map σ ++ [v] ∧ b.Relates (Tuple.subst σ pre ++ v :: Tuple.subst σ post) ∧
        ¬b.ZeroFactor (Tuple.subst σ pre) (Tuple.subst σ post) := by
  have bindable : b.canBind (Tuple.subst σ pre).length = true := by
    rw [Tuple.length_subst, binds.bindable]
  have spec (ts : List Term) :
      b.apply ((Tuple.subst σ pre).map some ++ none :: (Tuple.subst σ post).map some) =
        .ok (some ts) ↔
      ∃ v, ts = Tuple.subst σ pre ++ v :: Tuple.subst σ post ∧ b.Relates ts ∧
        ¬b.ZeroFactor (Tuple.subst σ pre) (Tuple.subst σ post) :=
    Builtin.apply_missing_eq_some_iff bindable
  have place := idxOf?_none (Tuple.subst σ pre) (Tuple.subst σ post)
  rw [BuiltinCall.apply, arguments_map, arguments_bind binds, place]
  cases applied : b.apply
      ((Tuple.subst σ pre).map some ++ none :: (Tuple.subst σ post).map some) with
  | error e =>
    constructor
    · intro h
      cases h
    · rintro ⟨v, -, relates, determined⟩
      rw [(spec _).2 ⟨v, rfl, relates, determined⟩] at applied
      cases applied
  | ok completed =>
    cases completed with
    | none =>
      constructor
      · intro h
        cases h
      · rintro ⟨v, -, relates, determined⟩
        rw [(spec _).2 ⟨v, rfl, relates, determined⟩] at applied
        cases applied
    | some ts =>
      obtain ⟨v, rfl, relates, determined⟩ := (spec ts).1 applied
      simp only [Except.toOption, Option.join_some, Bool.false_eq_true, if_false, Option.bind_eq_bind,
        Option.bind_some, List.getElem?_append_right le_rfl, Nat.sub_self, List.getElem?_cons_zero,
        Option.map_some, Option.some.injEq]
      constructor
      · rintro rfl
        exact ⟨v, rfl, relates, determined⟩
      · rintro ⟨w, rfl, relates', -⟩
        -- The value that completes the relation is the one that the builtin found.
        rw [(spec _).2 ⟨w, rfl, relates', determined⟩] at applied
        simpa using applied.symm

/-- A call that binds a variable adds that its relation holds, and loses the substitutions that
leave the variable undetermined. -/
theorem represents_bind {S : List String} {b : Builtin} {a : Atom} {x : String} {pre post : List Term}
    {Sat : Substitution → Prop} {R : Relation} (rep : Represents S Sat R)
    (binds : b.BindsAt a S x pre post) {src : Sources} (input : src.getD running ∅ = R) :
    Represents (call S b a (some x) false).schema
      (fun σ => Sat σ ∧ b.Relates (a.terms.subst σ) ∧
        ¬b.ZeroFactor (Tuple.subst σ pre) (Tuple.subst σ post))
      ((call S b a (some x) false).plan.rows src) where
  rows t := by
    simp only [call, Plan.rows, input, Relation.mem_filterMap, Option.toList_some, List.map_append,
      List.map_cons, List.map_nil]
    constructor
    · rintro ⟨row, hrow, happly⟩
      obtain ⟨σ, sat, rfl⟩ := (rep.rows _).1 hrow
      obtain ⟨v, rfl, relates, determined⟩ := (apply_bind_eq_some_iff binds σ).1 happly
      let extended : Substitution := fun y => if y = x then v else σ y
      have on_schema : ∀ y ∈ S, σ y = extended y := by
        intro y hy
        have ne : y ≠ x := fun e => binds.unbound (e ▸ hy)
        simp [extended, ne]
      have value : extended x = v := by simp [extended]
      obtain ⟨before, after⟩ := subst_eq_of_columns binds on_schema
      rw [before, after] at relates determined
      refine ⟨extended, ⟨rep.columns σ extended on_schema sat, ?_, determined⟩, ?_⟩
      · rw [subst_of_bindsAt binds, value]
        exact relates
      · rw [value, List.map_congr_left on_schema]
    · rintro ⟨σ, ⟨sat, relates, determined⟩, rfl⟩
      rw [subst_of_bindsAt binds] at relates
      exact ⟨_, (rep.rows _).2 ⟨σ, sat, rfl⟩,
        (apply_bind_eq_some_iff binds σ).2 ⟨σ x, rfl, relates, determined⟩⟩
  columns σ τ agree h := by
    have on_schema : ∀ y ∈ S, σ y = τ y := fun y hy => agree y (by simp [call, hy])
    have on_output : σ x = τ x := agree x (by simp [call])
    obtain ⟨before, after⟩ := subst_eq_of_columns binds on_schema
    have whole : a.terms.subst σ = a.terms.subst τ := by
      rw [subst_of_bindsAt binds, subst_of_bindsAt binds, on_output, before, after]
    rw [← whole, ← before, ← after]
    exact ⟨rep.columns σ τ on_schema h.1, h.2⟩

/-! ### The operator of a literal -/

/-- The operators that body literals get over the columns `S`, with what is known of the literal. -/
inductive ForLiteral (S : List String) (l : Literal) : Operator → Prop
  | join (stored : l.builtin? = none) (pos : l.positive = true) : ForLiteral S l (ofJoin S l.atom)
  | antijoin (stored : l.builtin? = none) (neg : l.positive = false)
      (bound : ∀ x ∈ l.varNames, x ∈ S) :
      ForLiteral S l {
        kind := .antijoin l.predicate
        plan := .antijoin (.input running S.length) (scan l.atom)
          ((sharedColumns S l.varNames).map Prod.fst) ((sharedColumns S l.varNames).map Prod.snd)
        schema := S }
  | check (b : Builtin) (builtin : l.builtin? = some b) (bound : ∀ x ∈ l.varNames, x ∈ S) :
      ForLiteral S l (call S b l.atom none !l.positive)
  | bind (b : Builtin) (x : String) (pre post : List Term) (builtin : l.builtin? = some b)
      (pos : l.positive = true) (binds : b.BindsAt l.atom S x pre post) :
      ForLiteral S l (call S b l.atom (some x) false)

theorem forLiteral_of_ofBuiltin {r : Rule} {S : List String} {l : Literal} {b : Builtin}
    {op : Operator} (builtin : l.builtin? = some b)
    (h : ofBuiltin r S b l.atom (!l.positive) = .ok op) : ForLiteral S l op := by
  unfold ofBuiltin at h
  split at h
  · next mode =>
    cases h
    exact .check b builtin (Atom.unboundPositions_eq_nil_iff.1 (Builtin.mode_eq_check_iff.1 mode))
  · cases h
  · next x mode =>
    split at h
    · cases h
    · next pos =>
      cases h
      obtain ⟨pre, post, binds⟩ := Builtin.bindsAt_of_mode mode
      have negated : (!l.positive) = false := Bool.eq_false_iff.2 pos
      rw [negated]
      exact .bind b x pre post builtin (by simpa using negated) binds
  · cases h

theorem forLiteral_of_ofLiteral {r : Rule} {S : List String} {l : Literal} {op : Operator}
    (h : ofLiteral r S l = .ok op) : ForLiteral S l op := by
  unfold ofLiteral at h
  split at h
  · next b builtin => exact forLiteral_of_ofBuiltin builtin h
  · next stored pos =>
    cases h
    exact .join stored pos
  · next stored neg =>
    unfold ofAntijoin at h
    split at h
    · cases h
    · next unbound =>
      cases h
      exact .antijoin stored neg (Atom.firstUnbound?_eq_none_iff.1 unbound)

/-- An operator leaves the columns and what its literal binds. -/
theorem ForLiteral.mem_schema {S : List String} {l : Literal} {op : Operator}
    (h : ForLiteral S l op) (x : String) : x ∈ op.schema ↔ x ∈ S ∨ x ∈ JoinOrder.bindings l := by
  unfold JoinOrder.bindings
  cases h with
  | join stored pos =>
    by_cases hx : x ∈ S <;> simp [ofJoin, pos, hx, Literal.varNames]
  | antijoin stored neg bound => simp [neg]
  | check b builtin bound =>
    cases pos : l.positive with
    | false => simp [call]
    | true => simpa [call] using bound x
  | bind b y pre post builtin pos binds =>
    have names : x ∈ l.varNames ↔ x = y ∨ ∃ t ∈ pre ++ post, x ∈ t.occurrences := by
      rw [Literal.varNames, Atom.mem_varNames, binds.terms]
      simp only [List.mem_append, List.mem_cons]
      constructor
      · rintro ⟨t, ht | rfl | ht, hx⟩
        · exact .inr ⟨t, .inl ht, hx⟩
        · exact .inl (by simpa [Term.occurrences] using hx)
        · exact .inr ⟨t, .inr ht, hx⟩
      · rintro (rfl | ⟨t, ht | ht, hx⟩)
        · exact ⟨_, .inr (.inl rfl), by simp [Term.occurrences]⟩
        · exact ⟨t, .inl ht, hx⟩
        · exact ⟨t, .inr (.inr ht), hx⟩
    simp only [call, Option.toList_some, List.mem_append, List.mem_singleton, pos, if_true, names]
    constructor
    · rintro (hx | rfl)
      · exact .inl hx
      · exact .inr (.inl rfl)
    · rintro (hx | rfl | ⟨t, ht, hx⟩)
      · exact .inl hx
      · exact .inr rfl
      · exact .inl (binds.others t (by simpa using ht) x hx)

/-- A product leaves its missing factor undetermined when the other factor is zero. -/
theorem undetermined_iff {S : List String} {l : Literal} {b : Builtin} {x : String}
    {pre post : List Term} (builtin : l.builtin? = some b) (pos : l.positive = true)
    (binds : b.BindsAt l.atom S x pre post) (σ : Substitution) :
    l.Undetermined S σ ↔ b.ZeroFactor (Tuple.subst σ pre) (Tuple.subst σ post) := by
  rw [Literal.Undetermined, builtin, pos, binds.position, subst_of_bindsAt binds,
    Builtin.ZeroFactor]
  simp only [true_and, Option.some.injEq, List.cons.injEq, and_true]
  refine and_congr_right fun _ => ?_
  match pre with
  | [] => simp [Tuple.subst, List.head?_eq_getElem?]
  | [t] => simp [Tuple.subst]
  | t :: u :: ts => simp [Tuple.subst]

end Operator

theorem Represents.congr {S : List String} {P Q : Substitution → Prop} {R : Relation}
    (rep : Represents S P R) (h : ∀ σ, P σ ↔ Q σ) : Represents S Q R where
  rows t := by simp only [rep.rows, h]
  columns σ τ agree hσ := (h τ).1 (rep.columns σ τ agree ((h σ).2 hσ))

namespace Operator

/-- **One operator adds its literal** to what the running relation stands for. -/
theorem represents_ofLiteral {S : List String} {l : Literal} {op : Operator}
    (operator : ForLiteral S l op) {Sat : Substitution → Prop} {R : Relation}
    (rep : Represents S Sat R) {src : Sources} (input : src.getD running ∅ = R) {M : Interpretation}
    (reads : ∀ p, op.source? = some p → ∀ t, t ∈ src.getD source ∅ ↔ t ∈ M p) :
    Represents op.schema (fun σ => Sat σ ∧ l.HoldsIn M σ ∧ ¬l.Undetermined S σ)
      (op.plan.rows src) := by
  cases operator with
  | join stored pos =>
    refine (represents_ofJoin rep input).congr fun σ => ?_
    rw [reads l.predicate rfl]
    simp [Literal.HoldsIn, Literal.Undetermined, stored, pos]
  | antijoin stored neg bound =>
    refine (represents_antijoin rep bound input).congr fun σ => ?_
    rw [reads l.predicate rfl]
    simp [Literal.HoldsIn, Literal.Undetermined, stored, neg]
  | check b builtin bound =>
    refine (represents_check rep bound _ input).congr fun σ => ?_
    have none_unbound : l.atom.unboundPositions S = [] := Atom.unboundPositions_eq_nil_iff.2 bound
    cases pos : l.positive <;>
      simp [Literal.HoldsIn, Literal.Undetermined, builtin, pos, none_unbound]
  | bind b x pre post builtin pos binds =>
    refine (represents_bind rep binds input).congr fun σ => ?_
    rw [undetermined_iff builtin pos binds]
    simp [Literal.HoldsIn, builtin, pos]

end Operator

end Datalog
