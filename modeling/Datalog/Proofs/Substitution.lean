import Datalog.Pattern

/-!
# Substitutions

A substitution gives every variable a term, and an atom has an instance under it. Matching and
filling in are stated through instances: a pattern matches a tuple exactly when some substitution
makes the pattern the tuple, and the row it yields holds the values of that substitution
(`Pattern.apply_eq_some_iff`); a template filled with such a row is its instance
(`Term.instantiate?_map`).
-/

namespace Datalog

/-- A term for every variable. -/
abbrev Substitution := String → Term

namespace Term

mutual

/-- The instance of a term. -/
def subst (σ : Substitution) : Term → Term
  | .var x => σ x
  | .const c => .const c
  | .app f ts => .app f (substList σ ts)

/-- The instances of a list of terms. -/
def substList (σ : Substitution) : List Term → List Term
  | [] => []
  | t :: ts => subst σ t :: substList σ ts

end

@[simp] theorem substList_eq_map (σ : Substitution) (ts : List Term) :
    substList σ ts = ts.map (subst σ) := by
  induction ts with
  | nil => rfl
  | cons t ts ih => simp [substList, ih]

mutual

/-- Two instances of a term are equal exactly when its variables have the same values. -/
theorem subst_eq_subst_iff (σ τ : Substitution) : ∀ t : Term,
    t.subst σ = t.subst τ ↔ ∀ x ∈ t.occurrences, σ x = τ x
  | .var x => by simp [subst, occurrences]
  | .const c => by simp [subst, occurrences]
  | .app f ts => by
    have args := substList_eq_substList_iff σ τ ts
    simpa [subst, occurrences] using args

/-- The same for a list of terms. -/
theorem substList_eq_substList_iff (σ τ : Substitution) : ∀ ts : List Term,
    substList σ ts = substList τ ts ↔ ∀ x ∈ occurrencesList ts, σ x = τ x
  | [] => by simp [substList, occurrencesList]
  | t :: ts => by
    rw [substList, substList, List.cons.injEq, subst_eq_subst_iff σ τ t,
      substList_eq_substList_iff σ τ ts, occurrencesList, List.forall_mem_append]

end

mutual

/-- A term without variables has no occurrence of one. -/
theorem occurrences_of_isGround : ∀ {t : Term}, t.isGround = true → t.occurrences = []
  | .var _, h => by simp [isGround] at h
  | .const _, _ => rfl
  | .app _ _, h => by rw [isGround] at h; exact occurrencesList_of_allGround h

/-- The same for a list of terms. -/
theorem occurrencesList_of_allGround : ∀ {ts : List Term},
    allGround ts = true → occurrencesList ts = []
  | [], _ => rfl
  | t :: ts, h => by
    rw [allGround, Bool.and_eq_true] at h
    rw [occurrencesList, occurrences_of_isGround h.1, occurrencesList_of_allGround h.2]
    rfl

end

mutual

theorem subst_var : ∀ t : Term, t.subst .var = t
  | .var _ => rfl
  | .const _ => rfl
  | .app f ts => by rw [subst, substList_var ts]

theorem substList_var : ∀ ts : List Term, substList .var ts = ts
  | [] => rfl
  | t :: ts => by rw [substList, subst_var t, substList_var ts]

end

/-- A ground term is its only instance. -/
theorem subst_of_isGround {t : Term} (h : t.isGround = true) (σ : Substitution) : t.subst σ = t := by
  have same : t.subst σ = t.subst .var := by
    rw [subst_eq_subst_iff, occurrences_of_isGround h]
    simp
  rw [same, subst_var]

end Term

namespace Tuple

/-- The instance of a tuple. -/
def subst (σ : Substitution) (t : Tuple) : Tuple := t.map (Term.subst σ)

@[simp] theorem length_subst (σ : Substitution) (t : Tuple) : (t.subst σ).length = t.length := by
  simp [subst]

theorem mem_varNames {t : Tuple} {x : String} :
    x ∈ t.varNames ↔ ∃ u ∈ t, x ∈ u.occurrences := by
  simp [varNames]

/-- Two instances of a tuple are equal exactly when its variables have the same values. -/
theorem subst_eq_subst_iff {σ τ : Substitution} {t : Tuple} :
    t.subst σ = t.subst τ ↔ ∀ x ∈ t.varNames, σ x = τ x := by
  have := Term.substList_eq_substList_iff σ τ t
  rw [Term.substList_eq_map, Term.substList_eq_map, Term.occurrencesList_eq_flatMap] at this
  simpa [subst, varNames] using this

end Tuple

/-! ### Matching -/

/-- The substitution gives every bound variable its value. -/
def Bindings.Agrees (ρ : Bindings) (σ : Substitution) : Prop :=
  ∀ x v, ρ.lookup x = some v → σ x = v

theorem lookup_cons_of_ne {x y : String} (h : y ≠ x) (v : Term) (ρ : Bindings) :
    List.lookup y ((x, v) :: ρ) = ρ.lookup y := by
  rw [List.lookup_cons, beq_eq_false_iff_ne.2 h]

theorem Bindings.agrees_cons {ρ : Bindings} {σ : Substitution} {x : String} {v : Term}
    (fresh : ρ.lookup x = none) : Agrees ((x, v) :: ρ) σ ↔ ρ.Agrees σ ∧ σ x = v := by
  constructor
  · intro h
    refine ⟨fun y w hy => h y w ?_, h x v (by simp)⟩
    have ne : y ≠ x := fun e => by simp [← e, hy] at fresh
    rw [lookup_cons_of_ne ne, hy]
  · rintro ⟨h, hx⟩ y w hy
    by_cases e : y = x
    · subst e
      simp only [List.lookup_cons_self, Option.some.injEq] at hy
      exact hx.trans hy
    · rw [lookup_cons_of_ne e] at hy
      exact h y w hy

/-- What matching tells about a condition `E` on substitutions over the variables `vars`: it fails
when no substitution that agrees with the bindings meets the condition, and otherwise extends the
bindings to just those variables and just that condition. -/
def Bindings.Matched (E : Substitution → Prop) (vars : List String) (ρ : Bindings) :
    Option Bindings → Prop
  | none => ∀ σ, ρ.Agrees σ → ¬E σ
  | some ρ' => (∀ σ, ρ'.Agrees σ ↔ ρ.Agrees σ ∧ E σ) ∧
      ∀ x, (ρ'.lookup x).isSome ↔ (ρ.lookup x).isSome ∨ x ∈ vars

namespace Term

open Bindings

theorem unify?_var_matched (x : String) (v : Term) (ρ : Bindings) :
    Matched (fun σ => σ x = v) [x] ρ (unify? (.var x) v ρ) := by
  rw [unify?]
  cases hx : ρ.lookup x with
  | none =>
    refine ⟨fun σ => agrees_cons hx, fun y => ?_⟩
    by_cases e : y = x
    · simp [e]
    · rw [lookup_cons_of_ne e]
      simp [e]
  | some w =>
    by_cases e : w = v
    · simp only [e, if_true]
      refine ⟨fun σ => ⟨fun h => ⟨h, h x v (by rw [hx, e])⟩, And.left⟩, fun y => ?_⟩
      constructor
      · exact .inl
      · rintro (h | h)
        · exact h
        · simp [List.mem_singleton.1 h, hx]
    · simp only [e, if_false]
      exact fun σ h h' => e ((h x w hx).symm.trans h')

mutual

/-- Matching a term against a value decides whether an instance of the term is the value. -/
theorem unify?_matched : ∀ (p v : Term) (ρ : Bindings),
    Matched (fun σ => p.subst σ = v) p.occurrences ρ (unify? p v ρ)
  | .var x, v, ρ => unify?_var_matched x v ρ
  | .const c, .const d, ρ => by
    rw [unify?]
    by_cases h : c = d
    · simp [h, Matched, subst, occurrences]
    · simp [h, Matched, subst]
  | .const c, .var y, ρ => by simp [unify?, Matched, subst]
  | .const c, .app g vs, ρ => by simp [unify?, Matched, subst]
  | .app f ps, .app g vs, ρ => by
    rw [unify?]
    by_cases h : f = g
    · simp only [h, if_true, subst, occurrences, Term.app.injEq, true_and]
      exact unifyList?_matched ps vs ρ
    · simp [h, Matched, subst]
  | .app f ps, .var y, ρ => by simp [unify?, Matched, subst]
  | .app f ps, .const d, ρ => by simp [unify?, Matched, subst]

/-- The same for a list of terms. -/
theorem unifyList?_matched : ∀ (ps vs : List Term) (ρ : Bindings),
    Matched (fun σ => substList σ ps = vs) (occurrencesList ps) ρ (unifyList? ps vs ρ)
  | [], [], ρ => by simp [unifyList?, Matched, substList, occurrencesList]
  | [], _ :: _, ρ => by simp [unifyList?, Matched, substList]
  | _ :: _, [], ρ => by simp [unifyList?, Matched, substList]
  | p :: ps, v :: vs, ρ => by
    have first := unify?_matched p v ρ
    rw [unifyList?]
    cases h : unify? p v ρ with
    | none =>
      rw [h] at first
      exact fun σ ha he => first σ ha (List.cons.inj he).1
    | some ρ₁ =>
      rw [h] at first
      have rest := unifyList?_matched ps vs ρ₁
      simp only [Option.bind_some]
      cases h' : unifyList? ps vs ρ₁ with
      | none =>
        rw [h'] at rest
        intro σ ha he
        obtain ⟨he₁, he₂⟩ := List.cons.inj he
        exact rest σ ((first.1 σ).2 ⟨ha, he₁⟩) he₂
      | some ρ₂ =>
        rw [h'] at rest
        refine ⟨fun σ => ?_, fun x => ?_⟩
        · rw [rest.1, first.1, and_assoc, ← List.cons.injEq]
          rfl
        · rw [rest.2, first.2, occurrencesList, List.mem_append, or_assoc]

end

end Term

theorem mapM_eq_some_map {α β : Type} {f : α → Option β} {g : α → β} {l : List α}
    (h : ∀ a ∈ l, f a = some (g a)) : l.mapM f = some (l.map g) := by
  induction l with
  | nil => rfl
  | cons a l ih =>
    rw [List.mapM_cons, h a List.mem_cons_self, ih fun b hb => h b (List.mem_cons_of_mem _ hb)]
    rfl

/-- A pattern matches the tuples that are instances of it, and yields the values of its variables. -/
theorem Pattern.apply_eq_some_iff {p : Pattern} {t row : Tuple} :
    p.apply t = some row ↔ ∃ σ, p.terms.subst σ = t ∧ p.schema.map σ = row := by
  have spec := Term.unifyList?_matched p.terms t []
  have inSchema : ∀ x, x ∈ Term.occurrencesList p.terms ↔ x ∈ p.schema := by
    simp [Pattern.schema, Tuple.varNames]
  have instance_eq : ∀ σ, Term.substList σ p.terms = p.terms.subst σ := by
    simp [Tuple.subst]
  rw [Pattern.apply]
  cases h : Term.unifyList? p.terms t [] with
  | none =>
    rw [h] at spec
    constructor
    · simp
    · rintro ⟨σ, hσ, -⟩
      exact absurd ((instance_eq σ).trans hσ) (spec σ (by simp [Bindings.Agrees]))
  | some ρ =>
    rw [h] at spec
    have values : ∀ σ, ρ.Agrees σ → (p.schema.mapM fun x => ρ.lookup x) = some (p.schema.map σ) := by
      intro σ hσ
      apply mapM_eq_some_map
      intro x hx
      obtain ⟨v, hv⟩ := Option.isSome_iff_exists.1 ((spec.2 x).2 (.inr ((inSchema x).2 hx)))
      rw [hv, hσ x v hv]
    constructor
    · intro hrow
      -- Any substitution that agrees with the bindings found will do.
      let σ : Substitution := fun x => (ρ.lookup x).getD default
      have agrees : ρ.Agrees σ := fun x v hv => by simp [σ, hv]
      refine ⟨σ, (instance_eq σ).symm.trans ((spec.1 σ).1 agrees).2, ?_⟩
      have := values σ agrees
      simp only [Option.bind_eq_bind, Option.bind_some] at hrow
      exact Option.some.inj (this.symm.trans hrow)
    · rintro ⟨σ, hσ, rfl⟩
      have agrees : ρ.Agrees σ :=
        (spec.1 σ).2 ⟨by simp [Bindings.Agrees], (instance_eq σ).trans hσ⟩
      exact values σ agrees

/-! ### Filling in -/

/-- Looking up a column in a row of values. -/
theorem lookup_zip_map (S : List String) (σ : Substitution) (x : String) :
    (S.zip (S.map σ)).lookup x = if x ∈ S then some (σ x) else none := by
  induction S with
  | nil => rfl
  | cons y S ih =>
    rw [List.map_cons, List.zip_cons_cons]
    by_cases e : x = y
    · simp [e]
    · rw [lookup_cons_of_ne e, ih]
      simp [e]

namespace Term

/-- The instance of a term, if its variables are among the columns `S`. -/
def substWithin? (S : List String) (σ : Substitution) (t : Term) : Option Term :=
  if ∀ x ∈ t.occurrences, x ∈ S then some (t.subst σ) else none

mutual

/-- Filling a row of values into a term gives its instance, where the row has all its variables. -/
theorem instantiate?_map (S : List String) (σ : Substitution) : ∀ t : Term,
    instantiate? (S.zip (S.map σ)) t = t.substWithin? S σ
  | .var x => by simp [instantiate?, substWithin?, subst, occurrences, lookup_zip_map]
  | .const c => by simp [instantiate?, substWithin?, subst, occurrences]
  | .app f ts => by
    rw [instantiate?, instantiateList?_map S σ ts, substWithin?, subst, occurrences]
    split <;> rfl

/-- The same for a list of terms. -/
theorem instantiateList?_map (S : List String) (σ : Substitution) : ∀ ts : List Term,
    instantiateList? (S.zip (S.map σ)) ts =
      if ∀ x ∈ occurrencesList ts, x ∈ S then some (substList σ ts) else none
  | [] => by simp [instantiateList?, occurrencesList, substList]
  | t :: ts => by
    rw [instantiateList?, instantiate?_map S σ t, instantiateList?_map S σ ts, substWithin?,
      occurrencesList, substList]
    simp only [List.forall_mem_append]
    by_cases h : ∀ x ∈ t.occurrences, x ∈ S
    · rw [if_pos h, Option.bind_some]
      by_cases h' : ∀ x ∈ occurrencesList ts, x ∈ S
      · rw [if_pos h', if_pos ⟨h, h'⟩]
        rfl
      · rw [if_neg h', if_neg fun both => h' both.2]
        rfl
    · rw [if_neg h, Option.bind_none, if_neg fun both => h both.1]

end

end Term

/-- A template whose variables are all columns becomes its instance. -/
theorem Template.apply_map {t : Template} (h : ∀ x ∈ t.terms.varNames, x ∈ t.schema)
    (σ : Substitution) : t.apply (t.schema.map σ) = some (t.terms.subst σ) := by
  rw [Template.apply, Term.instantiateList?_map, if_pos]
  · simp [Tuple.subst]
  · simpa [Tuple.varNames] using h

end Datalog
