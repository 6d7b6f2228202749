import Datalog.Proofs.Operators

/-!
# What rules derive, and where their jobs are accepted

The rows that come out of the operators of a rule are the instances of the head under the substitutions
that satisfy the body, less those that leave a product undetermined (`Rule.Derives`); without products
these are none (`Rule.derives_iff_of_no_products`). A literal may be read in an interpretation of its own
(`Rule.DerivesIn`): that is how new tuples stand in for stored facts at one join. A rule derives more from
more facts, and what it derives from new tuples is all that the old facts did not give yet
(`Rule.Derives.new_or_old`).

The job of a stored literal is refused if it reads a tuple that has not the arity of the predicate. Jobs
only come up where some substitution satisfies the literals before, so a rule is accepted when the tuples
that are read there have their arities (`Rule.AcceptedIn`). Facts that grow keep a rule accepted as long
as it is accepted for the new tuples at each of its joins (`Rule.accepted_of_old_of_new`).
-/

namespace Datalog

/-! ### Bodies -/

namespace Literal

/-- No product of the body has to find a factor beside a zero, given the variables bound before. -/
def Determined (σ : Substitution) : List String → List Literal → Prop
  | _, [] => True
  | bound, l :: ls => ¬l.Undetermined bound σ ∧ Determined σ (bound ++ JoinOrder.bindings l) ls

/-- Only which variables are bound matters. -/
theorem Determined.congr {σ : Substitution} {bound bound' : List String} {ls : List Literal}
    (same : ∀ x, x ∈ bound ↔ x ∈ bound') (h : Determined σ bound ls) : Determined σ bound' ls := by
  induction ls generalizing bound bound' with
  | nil => trivial
  | cons l ls ih =>
    refine ⟨fun h' => h.1 (h'.congr fun x => (same x).symm), ih (fun x => ?_) h.2⟩
    rw [List.mem_append, List.mem_append, same]

theorem Determined.take {σ : Substitution} {bound : List String} {ls : List Literal}
    (h : Determined σ bound ls) (i : Nat) : Determined σ bound (ls.take i) := by
  induction ls generalizing bound i with
  | nil =>
    rw [List.take_nil]
    trivial
  | cons l ls ih =>
    cases i with
    | zero => trivial
    | succ i => exact ⟨h.1, ih h.2 i⟩

/-- Every literal holds of its instance, literal number `i` in `M i`, and no product is left
undetermined. -/
def Satisfied (M : Nat → Interpretation) (σ : Substitution) (bound : List String) (ls : List Literal) :
    Prop :=
  (∀ (i : Nat) (l : Literal), ls[i]? = some l → l.HoldsIn (M i) σ) ∧ Determined σ bound ls

variable {M N : Nat → Interpretation} {σ : Substitution} {bound bound' : List String} {l : Literal}
  {ls : List Literal}

theorem satisfied_nil : Satisfied M σ bound [] := ⟨by simp, trivial⟩

/-- The first literal of a body, and what then is left of it. -/
theorem satisfied_cons_iff (grown : ∀ x, x ∈ bound' ↔ x ∈ bound ∨ x ∈ JoinOrder.bindings l) :
    Satisfied M σ bound (l :: ls) ↔
      (l.HoldsIn (M 0) σ ∧ ¬l.Undetermined bound σ) ∧ Satisfied (fun i => M (i + 1)) σ bound' ls := by
  have same : ∀ x, x ∈ bound' ↔ x ∈ bound ++ JoinOrder.bindings l := by
    intro x
    rw [grown, List.mem_append]
  constructor
  · rintro ⟨holds, determined, others⟩
    exact ⟨⟨holds 0 l rfl, determined⟩, fun i l' member => holds (i + 1) l' member,
      others.congr fun x => (same x).symm⟩
  · rintro ⟨⟨first, determined⟩, rest, others⟩
    refine ⟨fun i l' member => ?_, determined, others.congr same⟩
    cases i with
    | zero =>
      cases member
      exact first
    | succ i => exact rest i l' member

/-- Reading the literals elsewhere keeps a body satisfied if they still hold. -/
theorem Satisfied.imp (h : Satisfied M σ bound ls)
    (step : ∀ (i : Nat) (l : Literal), ls[i]? = some l → l.HoldsIn (M i) σ → l.HoldsIn (N i) σ) :
    Satisfied N σ bound ls :=
  ⟨fun i l member => step i l member (h.1 i l member), h.2⟩

theorem getElem?_of_take {i j : Nat} (member : (ls.take i)[j]? = some l) :
    j < i ∧ ls[j]? = some l := by
  rw [List.getElem?_take] at member
  split at member
  · next before => exact ⟨before, member⟩
  · cases member

/-- What satisfies a body satisfies the first literals of it. -/
theorem Satisfied.take (h : Satisfied M σ bound ls) (i : Nat) : Satisfied M σ bound (ls.take i) :=
  ⟨fun j l member => h.1 j l (getElem?_of_take member).2, h.2.take i⟩

/-- Where a stored literal comes up, that is where one of the given substitutions satisfies the literals
before it, the tuples that it reads have the arity of its predicate. -/
def AcceptedFrom (M : Nat → Interpretation) (Sat : Substitution → Prop) (bound : List String)
    (ls : List Literal) : Prop :=
  ∀ (i : Nat) (l : Literal), ls[i]? = some l → l.builtin? = none →
    (∃ σ, Sat σ ∧ Satisfied M σ bound (ls.take i)) → ∀ t ∈ M i l.predicate, t.arity = l.predicate.arity

theorem acceptedFrom_cons_iff {Sat : Substitution → Prop}
    (grown : ∀ x, x ∈ bound' ↔ x ∈ bound ∨ x ∈ JoinOrder.bindings l) :
    AcceptedFrom M Sat bound (l :: ls) ↔
      (l.builtin? = none → (∃ σ, Sat σ) → ∀ t ∈ M 0 l.predicate, t.arity = l.predicate.arity) ∧
      AcceptedFrom (fun i => M (i + 1))
        (fun σ => Sat σ ∧ l.HoldsIn (M 0) σ ∧ ¬l.Undetermined bound σ) bound' ls := by
  constructor
  · intro accepted
    refine ⟨fun stored ⟨σ, sat⟩ => accepted 0 l rfl stored ⟨σ, sat, satisfied_nil⟩, ?_⟩
    rintro i l' member stored ⟨σ, ⟨sat, first⟩, rest⟩
    exact accepted (i + 1) l' member stored ⟨σ, sat, (satisfied_cons_iff grown).2 ⟨first, rest⟩⟩
  · rintro ⟨first, rest⟩ i l' member stored ⟨σ, sat, before⟩
    cases i with
    | zero =>
      cases member
      exact first stored ⟨σ, sat⟩
    | succ i =>
      obtain ⟨own, before⟩ := (satisfied_cons_iff grown).1 before
      exact rest i l' member stored ⟨σ, ⟨sat, own⟩, before⟩

end Literal

/-! ### Derivations -/

namespace Rule

/-- The tuple is the instance of the head under a substitution that satisfies the body, where literal
number `i` of the body is read in `M i`, and that leaves no product undetermined. -/
def DerivesIn (M : Nat → Interpretation) (r : Rule) (t : Tuple) : Prop :=
  ∃ σ, Literal.Satisfied M σ [] r.body ∧ r.headInstance σ = t

/-- The tuple is the instance of the head under a substitution that makes the rule fire and leaves
no product undetermined. -/
def Derives (M : Interpretation) (r : Rule) (t : Tuple) : Prop :=
  ∃ σ, r.FiresIn M σ ∧ Literal.Determined σ [] r.body ∧ r.headInstance σ = t

/-- The tuple is derived with a new tuple in the place of the stored facts at some join. -/
def DerivesNew (M new : Interpretation) (r : Rule) (t : Tuple) : Prop :=
  ∃ i l, r.body[i]? = some l ∧ l.isJoinable = true ∧ r.DerivesIn (fun j => if j = i then new else M) t

variable {r : Rule} {t : Tuple} {M N : Interpretation} {σ : Substitution}

theorem satisfied_const_iff :
    Literal.Satisfied (fun _ => M) σ [] r.body ↔ r.FiresIn M σ ∧ Literal.Determined σ [] r.body := by
  refine and_congr_left fun _ => ⟨fun holds l member => ?_, fun fires i l member => ?_⟩
  · obtain ⟨i, at_i⟩ := List.mem_iff_getElem?.1 member
    exact holds i l at_i
  · exact fires l (List.mem_of_getElem? member)

theorem derivesIn_const : r.DerivesIn (fun _ => M) t ↔ r.Derives M t := by
  simp only [DerivesIn, Derives, satisfied_const_iff, and_assoc]

/-- Only the tuples that each stored literal reads of its own predicate matter. -/
theorem derivesIn_congr {M N : Nat → Interpretation}
    (same : ∀ i l, r.body[i]? = some l → l.builtin? = none → M i l.predicate = N i l.predicate) :
    r.DerivesIn M t ↔ r.DerivesIn N t := by
  refine exists_congr fun σ => and_congr_left fun _ => ⟨fun h => ?_, fun h => ?_⟩
  · exact h.imp fun i l member => (Literal.holdsIn_congr (same i l member)).1
  · exact h.imp fun i l member => (Literal.holdsIn_congr (same i l member)).2

/-- Without products, nothing is undetermined. -/
theorem determined_of_no_products {bound : List String} {ls : List Literal}
    (no_products : ∀ l ∈ ls, l.builtin? ≠ some .multiply) : Literal.Determined σ bound ls := by
  induction ls generalizing bound with
  | nil => trivial
  | cons l ls ih =>
    refine ⟨fun h => ?_, ih fun l' hl' => no_products l' (List.mem_cons_of_mem _ hl')⟩
    exact no_products l List.mem_cons_self h.2.1

/-- Without products, a rule derives the head instances wherever it fires. -/
theorem derives_iff_of_no_products (no_products : ∀ l ∈ r.body, l.builtin? ≠ some .multiply) :
    r.Derives M t ↔ ∃ σ, r.FiresIn M σ ∧ r.headInstance σ = t := by
  have determined (σ : Substitution) : Literal.Determined σ [] r.body :=
    determined_of_no_products no_products
  simp only [Derives, determined, true_and]

theorem Derives.arity (h : r.Derives M t) (fits : r.head.Fits) : t.arity = r.headPredicate.arity := by
  obtain ⟨σ, -, -, rfl⟩ := h
  rw [headPredicate, ← fits, Tuple.arity, headInstance, Tuple.length_subst]

/-- A rule derives more from more facts, as long as what it negates stays the same. -/
theorem Derives.mono (h : r.Derives M t)
    (le : ∀ l ∈ r.body, l.isJoinable = true → M l.predicate ⊆ N l.predicate)
    (neg : ∀ l ∈ r.body, l.NegatesStored → N l.predicate ⊆ M l.predicate) : r.Derives N t := by
  obtain ⟨σ, fires, determined, head⟩ := h
  refine ⟨σ, fun l hl => (fires l hl).mono (le l hl) (neg l hl), determined, head⟩

/-- Where new tuples stand in for the facts at one literal, a body is satisfied if it is by the facts and
the literal holds of a new tuple. -/
theorem satisfied_of_new {new : Interpretation} {ls : List Literal} {i : Nat} {l : Literal}
    (sat : Literal.Satisfied (fun _ => M) σ [] ls) (member : ls[i]? = some l) (is_new : l.HoldsIn new σ) :
    Literal.Satisfied (fun j => if j = i then new else M) σ [] ls := by
  refine sat.imp fun j l' member' holds => ?_
  by_cases at_i : j = i
  · rw [at_i, member] at member'
    cases member'
    rwa [if_pos at_i]
  · rwa [if_neg at_i]

/-- What is derived from all facts is derived from the old ones, or with a new tuple at some join. -/
theorem Derives.new_or_old {old new : Interpretation} (h : r.Derives M t)
    (cover : ∀ l ∈ r.body, l.isJoinable = true →
      M l.predicate ⊆ old l.predicate ∪ new l.predicate)
    (neg : ∀ l ∈ r.body, l.NegatesStored → old l.predicate ⊆ M l.predicate) :
    r.Derives old t ∨ r.DerivesNew M new t := by
  obtain ⟨σ, fires, determined, head⟩ := h
  by_cases all_old : ∀ l ∈ r.body, l.isJoinable = true →
      l.atom.terms.subst σ ∈ old l.predicate
  · refine .inl ⟨σ, fun l hl => ?_, determined, head⟩
    exact (fires l hl).of_stored (all_old l hl) (neg l hl)
  · push Not at all_old
    obtain ⟨l, hl, joinable, not_old⟩ := all_old
    obtain ⟨i, hi⟩ := List.mem_iff_getElem?.1 hl
    have is_new : l.HoldsIn new σ := by
      have stored := (Literal.holdsIn_of_isJoinable joinable).1 (fires l hl)
      exact (Literal.holdsIn_of_isJoinable joinable).2 ((cover l hl joinable stored).resolve_left not_old)
    exact .inr ⟨i, l, hi, joinable, σ,
      satisfied_of_new (satisfied_const_iff.2 ⟨fires, determined⟩) hi is_new, head⟩

/-- A derivation with new tuples at a join takes one of them. -/
theorem DerivesIn.nonempty_new {new : Interpretation} {i : Nat} {l : Literal}
    (h : r.DerivesIn (fun j => if j = i then new else M) t) (hl : r.body[i]? = some l)
    (joinable : l.isJoinable = true) : (new l.predicate).Nonempty := by
  obtain ⟨σ, sat, -⟩ := h
  have holds := sat.1 i l hl
  simp only [if_true, Literal.holdsIn_of_isJoinable joinable] at holds
  exact ⟨_, holds⟩

/-- What is derived with new tuples at one join is derived, if the new tuples are stored. -/
theorem DerivesNew.derives {new : Interpretation} (h : r.DerivesNew M new t)
    (stored : ∀ l ∈ r.body, l.isJoinable = true → new l.predicate ⊆ M l.predicate) : r.Derives M t := by
  obtain ⟨i, l, hl, joinable, σ, sat, head⟩ := h
  rw [← derivesIn_const]
  refine ⟨σ, sat.imp fun j l' member holds => ?_, head⟩
  by_cases at_i : j = i
  · rw [at_i, hl] at member
    cases member
    rw [if_pos at_i, Literal.holdsIn_of_isJoinable joinable] at holds
    exact (Literal.holdsIn_of_isJoinable joinable).2
      (stored l (List.mem_of_getElem? hl) joinable holds)
  · rwa [if_neg at_i] at holds

/-! ### Accepted rules -/

/-- Wherever a stored literal comes up, the tuples that it reads have the arity of its predicate. -/
def AcceptedIn (M : Nat → Interpretation) (r : Rule) : Prop :=
  Literal.AcceptedFrom M (fun _ => True) [] r.body

/-- The rule is accepted in one interpretation for all literals. -/
def Accepted (M : Interpretation) (r : Rule) : Prop := r.AcceptedIn fun _ => M

/-- The rule is accepted with the new tuples in the place of the stored facts at each join that has any. -/
def AcceptsNew (M new : Interpretation) (r : Rule) : Prop :=
  ∀ (i : Nat) (l : Literal), r.body[i]? = some l → l.isJoinable = true → (new l.predicate).Nonempty →
    r.AcceptedIn fun j => if j = i then new else M

/-- A rule is accepted wherever all that it reads has its arity. -/
theorem acceptedIn_of_right {M : Nat → Interpretation}
    (right : ∀ i l, r.body[i]? = some l → l.builtin? = none →
      ∀ t ∈ M i l.predicate, t.arity = l.predicate.arity) : r.AcceptedIn M :=
  fun i l member stored _ => right i l member stored

theorem acceptsNew_of_right {f new : Facts} (arities : f.HasArities) (new_arities : new.HasArities) :
    r.AcceptsNew f.model new.model := by
  refine fun i l _ _ _ => acceptedIn_of_right fun j l' _ _ t ht => ?_
  split at ht
  · exact new_arities l'.predicate t ht
  · exact arities l'.predicate t ht

/-- A rule that derives anything has come to all of its literals. -/
theorem AcceptedIn.right {M : Nat → Interpretation} (accepted : r.AcceptedIn M)
    (derives : r.DerivesIn M t) {i : Nat} {l : Literal} (member : r.body[i]? = some l)
    (stored : l.builtin? = none) : ∀ u ∈ M i l.predicate, u.arity = l.predicate.arity := by
  obtain ⟨σ, sat, -⟩ := derives
  exact accepted i l member stored ⟨σ, trivial, sat.take i⟩

theorem AcceptedIn.congr {M N : Nat → Interpretation} (accepted : r.AcceptedIn M)
    (same : ∀ i l, r.body[i]? = some l → l.builtin? = none → M i l.predicate = N i l.predicate) :
    r.AcceptedIn N := by
  rintro i l member stored ⟨σ, -, before⟩ t ht
  rw [← same i l member stored] at ht
  refine accepted i l member stored ⟨σ, trivial, before.imp fun j l' member' => ?_⟩ t ht
  exact (Literal.holdsIn_congr (same j l' (Literal.getElem?_of_take member').2)).2

/-- **Facts that grow keep a rule accepted** if it is accepted in the old ones, and with the new tuples in
their place at each join that has any. -/
theorem accepted_of_old_of_new {old new : Interpretation}
    (cover : ∀ l ∈ r.body, l.isJoinable = true →
      M l.predicate ⊆ old l.predicate ∪ new l.predicate)
    (neg : ∀ l ∈ r.body, l.NegatesStored → M l.predicate = old l.predicate)
    (before : r.Accepted old) (more : r.AcceptsNew M new) : r.Accepted M := by
  rintro i l member stored ⟨σ, -, sat⟩ t ht
  by_cases all_old : ∀ (j : Nat) (l' : Literal), (r.body.take i)[j]? = some l' → l'.isJoinable = true →
      l'.atom.terms.subst σ ∈ old l'.predicate
  · -- The literal comes up for the old facts too, so only new tuples could be wrong.
    have sat_old : Literal.Satisfied (fun _ => old) σ [] (r.body.take i) := by
      refine sat.imp fun j l' member' holds => ?_
      have in_body := List.mem_of_getElem? (Literal.getElem?_of_take member').2
      exact holds.of_stored (all_old j l' member') fun negates => (neg l' in_body negates).ge
    have old_right := before i l member stored ⟨σ, trivial, sat_old⟩
    have in_body : l ∈ r.body := List.mem_of_getElem? member
    cases positive : l.positive with
    | false =>
      exact old_right t ((neg l in_body ⟨stored, positive⟩).le ht)
    | true =>
      have joinable : l.isJoinable = true := Literal.isJoinable_iff.2 ⟨stored, positive⟩
      rcases cover l in_body joinable ht with was_there | is_new
      · exact old_right t was_there
      · refine more i l member joinable ⟨t, is_new⟩ i l member stored ⟨σ, trivial, ?_⟩ t ?_
        · refine sat.imp fun j l' member' holds => ?_
          rwa [if_neg (Literal.getElem?_of_take member').1.ne]
        · simpa using is_new
  · push Not at all_old
    obtain ⟨j, l', member', joinable, not_old⟩ := all_old
    obtain ⟨earlier, at_j⟩ := Literal.getElem?_of_take member'
    have is_new : l'.atom.terms.subst σ ∈ new l'.predicate := by
      have holds := (Literal.holdsIn_of_isJoinable joinable).1 (sat.1 j l' member')
      exact (cover l' (List.mem_of_getElem? at_j) joinable holds).resolve_left not_old
    have comes_up := satisfied_of_new sat member' ((Literal.holdsIn_of_isJoinable joinable).2 is_new)
    refine more j l' at_j joinable ⟨_, is_new⟩ i l member stored ⟨σ, trivial, comes_up⟩ t ?_
    simpa [earlier.ne'] using ht

end Rule

end Datalog
