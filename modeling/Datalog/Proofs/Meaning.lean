import Mathlib.Data.Set.Basic
import Mathlib.Order.Bounds.Basic
import Datalog.Evaluation.Run
import Datalog.Proofs.BuiltinRelations
import Datalog.Proofs.Substitution

/-!
# What rules mean

An interpretation says which tuples each predicate has, finitely many or not. A rule fires under a
substitution when every body literal holds of its instance: a stored literal when the instance is, or
is not, a tuple of its predicate, a builtin literal when its relation does, or does not, hold. An
interpretation is closed under rules when it has the head instances of all that fire in it.

With negation, closed interpretations need not have a least one: more tuples in a negated predicate
mean fewer heads. They do among those that leave certain settled predicates as they are, as soon as
nothing else is negated (`Extension`).
-/

namespace Datalog

/-- The tuples of each predicate. -/
abbrev Interpretation := Predicate → Set Tuple

namespace Facts

/-- The tuples that facts hold. -/
def model (f : Facts) : Interpretation := fun p => {t | t ∈ f.scan p}

theorem mem_model {f : Facts} {p : Predicate} {t : Tuple} : t ∈ f.model p ↔ t ∈ f.scan p := Iff.rfl

/-- Every tuple has the arity of its predicate. -/
def HasArities (f : Facts) : Prop := ∀ p, (f.scan p).HasArity p.arity

theorem mem_scan_add {f : Facts} {p q : Predicate} {r : Relation} {t : Tuple} :
    t ∈ (f.add p r).scan q ↔ t ∈ f.scan q ∨ q = p ∧ t ∈ r := by
  by_cases h : q = p
  · subst h
    simp
  · simp [scan_add_of_ne f r h, h]

theorem model_le_add (f : Facts) (p : Predicate) (r : Relation) : f.model ≤ (f.add p r).model :=
  fun _ _ ht => mem_scan_add.2 (.inl ht)

theorem model_add_le {f : Facts} {p : Predicate} {r : Relation} {M : Interpretation}
    (hf : f.model ≤ M) (hr : ∀ t ∈ r, t ∈ M p) : (f.add p r).model ≤ M := by
  intro q t ht
  rcases mem_scan_add.1 ht with old | ⟨rfl, new⟩
  · exact hf q old
  · exact hr t new

/-- Facts with the same tuples are the same but for the predicates they list. -/
theorem scan_eq_of_model_eq {f g : Facts} {p : Predicate} (h : f.model p = g.model p) :
    f.scan p = g.scan p :=
  SortedSet.ext_mem fun t => by rw [← mem_model, ← mem_model, h]

theorem HasArities.add {f : Facts} (hf : f.HasArities) {p : Predicate} {r : Relation}
    (hr : r.HasArity p.arity) : (f.add p r).HasArities := by
  intro q t ht
  rcases mem_scan_add.1 ht with old | ⟨rfl, new⟩
  · exact hf q t old
  · exact hr t new

theorem hasArities_ofList {l : List (Predicate × Relation)}
    (right : ∀ e ∈ l, ∀ t ∈ e.2.toList, t.arity = e.1.arity) : (ofList l).HasArities := by
  have empty : HasArities ∅ := fun p t ht => absurd ht SortedSet.not_mem_empty
  unfold ofList
  revert empty
  generalize (∅ : Facts) = f
  induction l generalizing f with
  | nil => exact id
  | cons e l ih =>
    intro hf
    apply ih fun e' he => right e' (List.mem_cons_of_mem _ he)
    exact hf.add (right e List.mem_cons_self)

end Facts

namespace Atom

/-- The atom has as many terms as the arity of its predicate says. -/
def Fits (a : Atom) : Prop := a.terms.length = a.predicate.arity

instance : DecidablePred Fits := fun a => inferInstanceAs (Decidable (a.terms.length = a.predicate.arity))

end Atom

namespace Literal

/-- The literal holds of its instance. -/
def HoldsIn (M : Interpretation) (σ : Substitution) (l : Literal) : Prop :=
  match l.builtin?, l.positive with
  | none, true => l.atom.terms.subst σ ∈ M l.predicate
  | none, false => l.atom.terms.subst σ ∉ M l.predicate
  | some b, true => b.Relates (l.atom.terms.subst σ)
  | some b, false => ¬b.Relates (l.atom.terms.subst σ)

/-- The literal denies that its instance is stored. -/
def NegatesStored (l : Literal) : Prop := l.builtin? = none ∧ l.positive = false

theorem isJoinable_iff {l : Literal} :
    l.isJoinable = true ↔ l.builtin? = none ∧ l.positive = true := by
  unfold isJoinable isBuiltin
  cases l.builtin? <;> simp

theorem holdsIn_of_isJoinable {M : Interpretation} {σ : Substitution} {l : Literal}
    (h : l.isJoinable = true) : l.HoldsIn M σ ↔ l.atom.terms.subst σ ∈ M l.predicate := by
  obtain ⟨stored, pos⟩ := isJoinable_iff.1 h
  rw [HoldsIn, stored, pos]

/-- Only the tuples of its own predicate matter to a literal, and none to a builtin one. -/
theorem holdsIn_congr {M N : Interpretation} {σ : Substitution} {l : Literal}
    (same : l.builtin? = none → M l.predicate = N l.predicate) : l.HoldsIn M σ ↔ l.HoldsIn N σ := by
  unfold HoldsIn
  cases stored : l.builtin? with
  | none => rw [same stored]
  | some b => cases l.positive <;> exact Iff.rfl

/-- A literal still holds where its instance is stored, and what it negates has no more tuples. -/
theorem HoldsIn.of_stored {M N : Interpretation} {σ : Substitution} {l : Literal} (h : l.HoldsIn M σ)
    (stored : l.isJoinable = true → l.atom.terms.subst σ ∈ N l.predicate)
    (neg : l.NegatesStored → N l.predicate ⊆ M l.predicate) : l.HoldsIn N σ := by
  unfold HoldsIn at h ⊢
  cases hb : l.builtin? with
  | some b => cases hp : l.positive <;> simpa only [hb, hp] using h
  | none =>
    cases hp : l.positive with
    | true => exact stored (isJoinable_iff.2 ⟨hb, hp⟩)
    | false =>
      simp only [hb, hp] at h ⊢
      exact fun h' => h (neg ⟨hb, hp⟩ h')

/-- A literal still holds when tuples are added to predicates that it does not negate. -/
theorem HoldsIn.mono {M N : Interpretation} {σ : Substitution} {l : Literal} (h : l.HoldsIn M σ)
    (le : l.isJoinable = true → M l.predicate ⊆ N l.predicate)
    (neg : l.NegatesStored → N l.predicate ⊆ M l.predicate) : l.HoldsIn N σ :=
  h.of_stored (fun joinable => le joinable ((holdsIn_of_isJoinable joinable).1 h)) neg

end Literal

namespace Rule

/-- Every body literal holds of its instance. -/
def FiresIn (M : Interpretation) (σ : Substitution) (r : Rule) : Prop :=
  ∀ l ∈ r.body, l.HoldsIn M σ

/-- The instance of the head. -/
def headInstance (r : Rule) (σ : Substitution) : Tuple := r.head.terms.subst σ

end Rule

namespace Interpretation

/-- The interpretation has the head instances of all rules that fire in it. -/
def ClosedUnder (rules : Program) (M : Interpretation) : Prop :=
  ∀ r ∈ rules, ∀ σ, r.FiresIn M σ → r.headInstance σ ∈ M r.headPredicate

/-- The interpretation has the tuples of `base`, and no others of the settled predicates. -/
structure Extension (base : Interpretation) (settled : Predicate → Prop) (M : Interpretation) :
    Prop where
  contains : base ≤ M
  keeps : ∀ p, settled p → M p = base p

end Interpretation

end Datalog
