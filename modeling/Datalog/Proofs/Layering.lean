import Mathlib.Data.Finset.Card
import Mathlib.Logic.Relation
import Mathlib.Order.Bounds.Basic
import Mathlib.Order.Interval.Finset.Nat
import Mathlib.Order.Lattice.Nat
import Datalog.Stratification

/-!
# Stratification finds the least layering

A layering numbers the predicates so that every head is at least as high as what it asserts and
strictly above what it negates. The search of `Program.stratify` raises heads and never overshoots
any layering (`StratumMap.pass_ok`), so what it returns is the least one. That its bounds are wide
enough rests on one fact about the least layering: it cannot be lowered on any set of predicates, so
every such set has a head that a dependency holds up from outside the set (`exists_tight`). Applied
to the predicates from a level upwards, it says that no level is skipped, and so that no stratum
exceeds the number of rules; applied to the predicates that are still too low, it says that every
pass settles another head.
-/

namespace Datalog

/-- Every head is at least as high as what its rules assert and strictly above what they negate. -/
def Program.LayeredBy (p : Program) (s : Predicate → Nat) : Prop :=
  ∀ r ∈ p, ∀ l ∈ r.body,
    if l.positive then s l.predicate ≤ s r.headPredicate else s l.predicate < s r.headPredicate

/-- A rule for `h` has a body literal of predicate `b`. -/
def Program.DependsOn (p : Program) (h b : Predicate) : Prop :=
  ∃ r ∈ p, ∃ l ∈ r.body, r.headPredicate = h ∧ l.predicate = b

/-- Some negated literal leads back to the head of its own rule. -/
def Program.HasNegativeCycle (p : Program) : Prop :=
  ∃ r ∈ p, ∃ l ∈ r.body,
    l.positive = false ∧ Relation.ReflTransGen p.DependsOn l.predicate r.headPredicate

/-- The strata that a list of dependencies requires are given. -/
def Respects (ds : List Dependency) (s : Predicate → Nat) : Prop :=
  ∀ d ∈ ds, d.required (s d.body) ≤ s d.head

theorem Dependency.required_mono (d : Dependency) {a b : Nat} (h : a ≤ b) :
    d.required a ≤ d.required b := by
  unfold Dependency.required
  split <;> omega

theorem Dependency.required_pred (d : Dependency) {n : Nat} (h : 0 < n) :
    d.required (n - 1) = d.required n - 1 := by
  unfold Dependency.required
  split <;> omega

theorem Program.mem_dependencies {p : Program} {d : Dependency} :
    d ∈ p.dependencies ↔
      ∃ r ∈ p, ∃ l ∈ r.body, d = ⟨r.headPredicate, l.predicate, !l.positive⟩ := by
  simp [Program.dependencies, eq_comm]

/-- Layerings are the numberings that respect the dependencies. -/
theorem Program.layeredBy_iff {p : Program} {s : Predicate → Nat} :
    p.LayeredBy s ↔ Respects p.dependencies s := by
  constructor
  · intro h d hd
    obtain ⟨r, hr, l, hl, rfl⟩ := Program.mem_dependencies.1 hd
    have held := h r hr l hl
    cases hp : l.positive with
    | true => simpa [Dependency.required, hp] using held
    | false => simpa [Dependency.required, hp, Nat.succ_le_iff] using held
  · intro h r hr l hl
    have held := h _ (Program.mem_dependencies.2 ⟨r, hr, l, hl, rfl⟩)
    cases hp : l.positive with
    | true => simpa [Dependency.required, hp] using held
    | false => simpa [Dependency.required, hp, Nat.succ_le_iff] using held

/-! ### The least layering -/

/-- Where some numbering respects the dependencies, a least one does. -/
theorem exists_isLeast_respects {ds : List Dependency} (h : ∃ f, Respects ds f) :
    ∃ s, IsLeast {f | Respects ds f} s := by
  let values (q : Predicate) : Set Nat := {n | ∃ f, Respects ds f ∧ f q = n}
  have attained : ∀ q, sInf (values q) ∈ values q := by
    intro q
    obtain ⟨f, hf⟩ := h
    exact Nat.sInf_mem ⟨f q, f, hf, rfl⟩
  have below : ∀ f, Respects ds f → ∀ q, sInf (values q) ≤ f q :=
    fun f hf q => Nat.sInf_le ⟨f, hf, rfl⟩
  refine ⟨fun q => sInf (values q), fun d hd => ?_, fun f hf q => below f hf q⟩
  -- The least value of the head belongs to a numbering whose body value is no less than the least.
  obtain ⟨f, hf, heq⟩ := attained d.head
  calc d.required (sInf (values d.body))
      ≤ d.required (f d.body) := d.required_mono (below f hf d.body)
    _ ≤ f d.head := hf d hd
    _ = sInf (values d.head) := heq

/-- The least layering cannot be lowered on a set of predicates: some dependency holds a head of the
set up from outside the set. -/
theorem exists_tight {ds : List Dependency} {s : Predicate → Nat}
    (least : IsLeast {f | Respects ds f} s) {N : Predicate → Prop} (nonempty : ∃ q, N q)
    (positive : ∀ q, N q → 0 < s q) :
    ∃ d ∈ ds, N d.head ∧ ¬N d.body ∧ s d.head = d.required (s d.body) := by
  classical
  by_contra loose
  push Not at loose
  let lowered : Predicate → Nat := fun q => if N q then s q - 1 else s q
  have respects : Respects ds lowered := by
    intro d hd
    have kept : d.required (s d.body) ≤ s d.head := least.1 d hd
    have lower : lowered d.body ≤ s d.body := by
      simp only [lowered]
      split <;> omega
    by_cases hh : N d.head
    · have head : lowered d.head = s d.head - 1 := if_pos hh
      by_cases hb : N d.body
      · have body : lowered d.body = s d.body - 1 := if_pos hb
        have := positive d.body hb
        rw [head, body, d.required_pred this]
        omega
      · have body : lowered d.body = s d.body := if_neg hb
        have := loose d hd hh hb
        rw [head, body]
        omega
    · have head : lowered d.head = s d.head := if_neg hh
      rw [head]
      exact (d.required_mono lower).trans kept
  obtain ⟨q, hq⟩ := nonempty
  have le : s q ≤ lowered q := least.2 respects q
  have := positive q hq
  rw [show lowered q = s q - 1 from if_pos hq] at le
  omega

/-- No level of the least layering is skipped: a head stands at each of them. -/
theorem exists_head_at_level {ds : List Dependency} {s : Predicate → Nat}
    (least : IsLeast {f | Respects ds f} s) {q : Predicate} {v : Nat} (pos : 0 < v) (le : v ≤ s q) :
    ∃ d ∈ ds, s d.head = v := by
  obtain ⟨d, hd, above, below, tight⟩ := exists_tight least (N := fun q => v ≤ s q) ⟨q, le⟩
    (fun q hq => by omega)
  refine ⟨d, hd, ?_⟩
  unfold Dependency.required at tight
  split at tight <;> omega

/-- The head predicates of the dependencies. -/
def headsOf (ds : List Dependency) : Finset Predicate := (ds.map Dependency.head).toFinset

theorem mem_headsOf {ds : List Dependency} {q : Predicate} :
    q ∈ headsOf ds ↔ ∃ d ∈ ds, d.head = q := by
  simp [headsOf]

theorem level_le_card_heads {ds : List Dependency} {s : Predicate → Nat}
    (least : IsLeast {f | Respects ds f} s) (q : Predicate) : s q ≤ (headsOf ds).card := by
  have levels : Finset.Icc 1 (s q) ⊆ (headsOf ds).image s := by
    intro v hv
    obtain ⟨pos, le⟩ := Finset.mem_Icc.1 hv
    obtain ⟨d, hd, heq⟩ := exists_head_at_level least pos le
    exact Finset.mem_image.2 ⟨d.head, mem_headsOf.2 ⟨d, hd, rfl⟩, heq⟩
  calc s q = (Finset.Icc 1 (s q)).card := by simp
    _ ≤ ((headsOf ds).image s).card := Finset.card_le_card levels
    _ ≤ (headsOf ds).card := Finset.card_image_le

theorem card_heads_le (p : Program) : (headsOf p.dependencies).card ≤ p.length := by
  have sub : headsOf p.dependencies ⊆ (p.map Rule.headPredicate).toFinset := by
    intro q hq
    obtain ⟨d, hd, rfl⟩ := mem_headsOf.1 hq
    obtain ⟨r, hr, l, _, rfl⟩ := Program.mem_dependencies.1 hd
    exact List.mem_toFinset.2 (List.mem_map.2 ⟨r, hr, rfl⟩)
  calc (headsOf p.dependencies).card
      ≤ (p.map Rule.headPredicate).toFinset.card := Finset.card_le_card sub
    _ ≤ (p.map Rule.headPredicate).length := List.toFinset_card_le _
    _ = p.length := by simp

/-! ### One pass of the search -/

namespace StratumMap

theorem of_insert (m : StratumMap) (p q : Predicate) (n : Nat) :
    StratumMap.of (m.insert p n) q = if q = p then n else m.of q := by
  unfold StratumMap.of SortedMap.getD
  rw [SortedMap.get?_insert]
  by_cases h : q = p
  · simp [h]
  · rw [if_neg fun h' => h (Std.LawfulEqOrd.eq_of_compare h'), if_neg h]

/-- Relaxing a dependency raises its head to what it requires, and nothing else. -/
theorem of_relax (m : StratumMap) (d : Dependency) (q : Predicate) :
    (m.relax d).1.of q =
      if q = d.head then max (m.of d.head) (d.required (m.of d.body)) else m.of q := by
  by_cases h : m.of d.head < d.required (m.of d.body)
  · simp only [relax, h, if_true]
    rw [of_insert, max_eq_right h.le]
  · simp only [relax, h, if_false]
    rw [of_insert, max_eq_left (not_lt.1 h)]

theorem relax_snd (m : StratumMap) (d : Dependency) :
    (m.relax d).2 = decide (m.of d.head < d.required (m.of d.body)) := by
  by_cases h : m.of d.head < d.required (m.of d.body) <;> simp [relax, h]

/-- What a pass that ends has done to the strata. -/
structure Passed (ds : List Dependency) (m m' : StratumMap) (raised : Bool) : Prop where
  grows : ∀ q, m.of q ≤ m'.of q
  meets : ∀ d ∈ ds, d.required (m.of d.body) ≤ m'.of d.head
  quiet : raised = false → ∀ q, m'.of q = m.of q
  raises : raised = true → ∃ q, m.of q < m'.of q
  below : ∀ f, Respects ds f → (∀ q, m.of q ≤ f q) → ∀ q, m'.of q ≤ f q

/-- What it means that a pass was cut off at the bound. -/
structure CutOff (bound : Nat) (ds : List Dependency) (m : StratumMap) (e : EngineError) : Prop where
  error : ∃ q n, e = .stratification q n bound
  exceeds : ∀ f, Respects ds f → (∀ q, m.of q ≤ f q) → ∃ q, bound < f q

/-- Every numbering that respects a dependency and lies above the strata stays above them when the
dependency is relaxed. -/
theorem of_relax_le {m : StratumMap} {d : Dependency} {f : Predicate → Nat}
    (hd : d.required (f d.body) ≤ f d.head) (hm : ∀ q, m.of q ≤ f q) (q : Predicate) :
    (m.relax d).1.of q ≤ f q := by
  rw [of_relax]
  split
  · next h =>
    subst h
    exact max_le (hm _) ((d.required_mono (hm _)).trans hd)
  · exact hm q

theorem le_of_relax (m : StratumMap) (d : Dependency) (q : Predicate) :
    m.of q ≤ (m.relax d).1.of q := by
  rw [of_relax]
  split
  · next h => subst h; exact le_max_left _ _
  · exact le_rfl

/-- A pass puts the effect of its first dependency before the effect of the others. -/
theorem Passed.cons {d : Dependency} {ds : List Dependency} {m m' : StratumMap} {raised : Bool}
    (rest : Passed ds (m.relax d).1 m' raised) :
    Passed (d :: ds) m m' ((m.relax d).2 || raised) where
  grows q := (le_of_relax m d q).trans (rest.grows q)
  meets d' hd' := by
    rcases List.mem_cons.1 hd' with rfl | hd'
    · refine le_trans ?_ (rest.grows d'.head)
      rw [of_relax, if_pos rfl]
      exact le_max_right _ _
    · exact (d'.required_mono (le_of_relax m d _)).trans (rest.meets d' hd')
  quiet h q := by
    obtain ⟨hd, hr⟩ := Bool.or_eq_false_iff.1 h
    rw [relax_snd, decide_eq_false_iff_not, not_lt] at hd
    rw [rest.quiet hr, of_relax]
    split
    · next hq => rw [hq, max_eq_left hd]
    · rfl
  raises h := by
    rcases Bool.or_eq_true_iff.1 h with hd | hr
    · refine ⟨d.head, lt_of_lt_of_le ?_ (rest.grows d.head)⟩
      rw [relax_snd, decide_eq_true_eq] at hd
      rw [of_relax, if_pos rfl]
      exact lt_of_lt_of_le hd (le_max_right _ _)
    · obtain ⟨q, hq⟩ := rest.raises hr
      exact ⟨q, lt_of_le_of_lt (le_of_relax m d q) hq⟩
  below f hf hm :=
    rest.below f (fun d' hd' => hf d' (List.mem_cons_of_mem _ hd'))
      (of_relax_le (hf d List.mem_cons_self) hm)

theorem CutOff.cons {bound : Nat} {d : Dependency} {ds : List Dependency} {m : StratumMap}
    {e : EngineError} (rest : CutOff bound ds (m.relax d).1 e) : CutOff bound (d :: ds) m e where
  error := rest.error
  exceeds f hf hm :=
    rest.exceeds f (fun d' hd' => hf d' (List.mem_cons_of_mem _ hd'))
      (of_relax_le (hf d List.mem_cons_self) hm)

/-- A pass either ends, or is cut off at the bound. -/
theorem pass_spec (bound : Nat) (ds : List Dependency) (m : StratumMap) :
    match pass bound m ds with
    | .ok (m', raised) => Passed ds m m' raised
    | .error e => CutOff bound ds m e := by
  induction ds generalizing m with
  | nil => exact ⟨fun _ => le_rfl, by simp, fun _ _ => rfl, by simp, fun _ _ h => h⟩
  | cons d ds ih =>
    have rest := ih (m.relax d).1
    rw [pass]
    rcases hr : m.relax d with ⟨m₁, raised⟩
    rw [hr] at rest
    cases raised with
    | false =>
      simp only
      split at rest
      · next h =>
        rw [h]
        have := Passed.cons (d := d) (m := m) (by rw [hr]; exact rest)
        simpa [hr] using this
      · next h =>
        rw [h]
        exact CutOff.cons (by rw [hr]; exact rest)
    | true =>
      simp only
      split
      · next h =>
        split at h
        · cases h
        · split at rest
          · next hp =>
            rw [hp] at h
            cases h
            have := Passed.cons (d := d) (m := m) (by rw [hr]; exact rest)
            simpa [hr] using this
          · next hp => rw [hp] at h; cases h
      · next h =>
        split at h
        · next hb =>
          cases h
          refine ⟨⟨_, _, rfl⟩, fun f hf hm => ⟨d.head, hb.trans_le ?_⟩⟩
          have := of_relax_le (hf d List.mem_cons_self) hm d.head
          rwa [hr] at this
        · split at rest
          · next hp => rw [hp] at h; cases h
          · next hp =>
            rw [hp] at h
            cases h
            exact CutOff.cons (by rw [hr]; exact rest)

/-! ### The search -/

/-- The heads that are still below their stratum in the least layering. -/
def unsettled (ds : List Dependency) (s : Predicate → Nat) (m : StratumMap) : Finset Predicate :=
  (headsOf ds).filter fun q => m.of q < s q

/-- A predicate that is too low is a head. -/
theorem mem_unsettled {ds : List Dependency} {s : Predicate → Nat}
    (least : IsLeast {f | Respects ds f} s) {m : StratumMap} {q : Predicate} :
    q ∈ unsettled ds s m ↔ m.of q < s q := by
  refine ⟨fun h => (Finset.mem_filter.1 h).2, fun h => Finset.mem_filter.2 ⟨?_, h⟩⟩
  obtain ⟨d, hd, rfl, -, -⟩ := exists_tight least (N := fun q' => q' = q) ⟨q, rfl⟩
    (fun q' hq' => by subst hq'; omega)
  exact mem_headsOf.2 ⟨d, hd, rfl⟩

/-- A pass that raises something settles another head. -/
theorem card_unsettled_lt {ds : List Dependency} {s : Predicate → Nat}
    (least : IsLeast {f | Respects ds f} s) {m m' : StratumMap} (low : ∀ q, m.of q ≤ s q)
    (passed : Passed ds m m' true) : (unsettled ds s m').card < (unsettled ds s m).card := by
  have low' := passed.below s least.1 low
  obtain ⟨q, hq⟩ := passed.raises rfl
  -- What was raised was too low, so some head was held up by a predicate that was high enough.
  obtain ⟨d, hd, head, body, tight⟩ := exists_tight least (N := fun q => m.of q < s q)
    ⟨q, hq.trans_le (low' q)⟩ (fun q hq => by omega)
  apply Finset.card_lt_card
  refine (Finset.ssubset_iff_of_subset fun q hq => ?_).2 ⟨d.head, ?_, ?_⟩
  · rw [mem_unsettled least] at hq ⊢
    exact (passed.grows q).trans_lt hq
  · exact (mem_unsettled least).2 head
  · rw [mem_unsettled least, not_lt, tight]
    have settled : s d.body = m.of d.body := le_antisymm (not_lt.1 body) (low _)
    rw [settled]
    exact passed.meets d hd

/-- The search succeeds when it has a pass for every head that is too low and one more. -/
theorem settle_ok {ds : List Dependency} {s : Predicate → Nat} {bound : Nat}
    (least : IsLeast {f | Respects ds f} s) (fits : ∀ q, s q ≤ bound) {n : Nat} {m : StratumMap}
    (low : ∀ q, m.of q ≤ s q) (enough : (unsettled ds s m).card < n) :
    ∃ m', settle bound ds n m = .ok m' := by
  induction n generalizing m with
  | zero => omega
  | succ n ih =>
    have spec := pass_spec bound ds m
    rw [settle]
    cases hp : pass bound m ds with
    | error e =>
      rw [hp] at spec
      obtain ⟨q, hq⟩ := spec.exceeds s least.1 low
      exact absurd hq (not_lt.2 (fits q))
    | ok result =>
      obtain ⟨m', raised⟩ := result
      rw [hp] at spec
      cases raised with
      | false => exact ⟨m', rfl⟩
      | true =>
        have fewer := card_unsettled_lt least low spec
        exact ih (spec.below s least.1 low) (by omega)

/-- What the search returns is a layering below all others. -/
theorem isLeast_of_settle {ds : List Dependency} {bound n : Nat} {m m' : StratumMap}
    (low : ∀ f, Respects ds f → ∀ q, m.of q ≤ f q) (h : settle bound ds n m = .ok m') :
    IsLeast {f | Respects ds f} m'.of := by
  induction n generalizing m with
  | zero => cases h
  | succ n ih =>
    have spec := pass_spec bound ds m
    rw [settle] at h
    cases hp : pass bound m ds with
    | error e => rw [hp] at h; cases h
    | ok result =>
      obtain ⟨m₁, raised⟩ := result
      rw [hp] at h spec
      cases raised with
      | true => exact ih (fun f hf => spec.below f hf (low f hf)) h
      | false =>
        cases h
        refine ⟨fun d hd => ?_, fun f hf => spec.below f hf (low f hf)⟩
        rw [spec.quiet rfl d.body]
        exact spec.meets d hd

/-- The search fails with a stratification error only. -/
theorem error_of_settle {ds : List Dependency} {bound n : Nat} {m : StratumMap} {e : EngineError}
    (h : settle bound ds n m = .error e) : ∃ q k, e = .stratification q k bound := by
  induction n generalizing m with
  | zero => cases h; exact ⟨_, _, rfl⟩
  | succ n ih =>
    have spec := pass_spec bound ds m
    rw [settle] at h
    cases hp : pass bound m ds with
    | error e' =>
      rw [hp] at h spec
      cases h
      exact spec.error
    | ok result =>
      obtain ⟨m₁, raised⟩ := result
      rw [hp] at h
      cases raised with
      | true => exact ih h
      | false => cases h

end StratumMap

namespace Program

/-! ### Layerings and cycles -/

theorem LayeredBy.le_of_reaches {p : Program} {s : Predicate → Nat} (h : p.LayeredBy s)
    {a b : Predicate} (reach : Relation.ReflTransGen p.DependsOn a b) : s b ≤ s a := by
  induction reach with
  | refl => exact le_rfl
  | tail _ step ih =>
    obtain ⟨r, hr, l, hl, rfl, rfl⟩ := step
    have := h r hr l hl
    split at this <;> omega

/-- The negated dependencies that are reached from a predicate. -/
noncomputable def negationsBelow (p : Program) (q : Predicate) : Finset Dependency := by
  classical
  exact p.dependencies.toFinset.filter fun d =>
    d.negated = true ∧ Relation.ReflTransGen p.DependsOn q d.head

/-- Without a negative cycle, counting the negations below a predicate layers the program. -/
theorem layeredBy_card_negationsBelow {p : Program} (h : ¬p.HasNegativeCycle) :
    p.LayeredBy fun q => (p.negationsBelow q).card := by
  intro r hr l hl
  have step : p.DependsOn r.headPredicate l.predicate := ⟨r, hr, l, hl, rfl, rfl⟩
  have sub : p.negationsBelow l.predicate ⊆ p.negationsBelow r.headPredicate := by
    intro d hd
    simp only [negationsBelow, Finset.mem_filter] at hd ⊢
    exact ⟨hd.1, hd.2.1, .head step hd.2.2⟩
  cases hp : l.positive with
  | true => simpa [hp] using Finset.card_le_card sub
  | false =>
    simp only [Bool.false_eq_true, if_false]
    apply Finset.card_lt_card
    refine (Finset.ssubset_iff_of_subset sub).2
      ⟨⟨r.headPredicate, l.predicate, !l.positive⟩, ?_, fun hd => h ⟨r, hr, l, hl, hp, ?_⟩⟩
    · simp only [negationsBelow, Finset.mem_filter, List.mem_toFinset]
      exact ⟨mem_dependencies.2 ⟨r, hr, l, hl, rfl⟩, by simp [hp], .refl⟩
    · simp only [negationsBelow, Finset.mem_filter] at hd
      exact hd.2.2

/-- A program can be layered exactly when no dependency cycle goes through a negated literal. -/
theorem exists_layeredBy_iff {p : Program} : (∃ s, p.LayeredBy s) ↔ ¬p.HasNegativeCycle := by
  constructor
  · rintro ⟨s, hs⟩ ⟨r, hr, l, hl, hp, reach⟩
    have up := hs.le_of_reaches reach
    have down := hs r hr l hl
    simp only [hp, Bool.false_eq_true, if_false] at down
    omega
  · exact fun h => ⟨_, layeredBy_card_negationsBelow h⟩

/-! ### The strata -/

theorem layerings_eq (p : Program) :
    {f | p.LayeredBy f} = {f | Respects p.dependencies f} := Set.ext fun _ => layeredBy_iff

/-- The search of a program, seen from its layerings. -/
theorem stratify_spec (p : Program) :
    match StratumMap.settle p.length p.dependencies (p.length + 1) ∅ with
    | .ok m => IsLeast {f | p.LayeredBy f} m.of
    | .error e => (¬∃ f, p.LayeredBy f) ∧ ∃ q n, e = .stratification q n p.length := by
  have start : ∀ f : Predicate → Nat, ∀ q, StratumMap.of ∅ q ≤ f q := fun f q => Nat.zero_le _
  split
  · next m h =>
    rw [layerings_eq]
    exact StratumMap.isLeast_of_settle (fun f _ => start f) h
  · next e h =>
    refine ⟨?_, StratumMap.error_of_settle h⟩
    rintro ⟨f, hf⟩
    obtain ⟨s, least⟩ := exists_isLeast_respects ⟨f, layeredBy_iff.1 hf⟩
    have fits : ∀ q, s q ≤ p.length := fun q =>
      (level_le_card_heads least q).trans (card_heads_le p)
    have few : (StratumMap.unsettled p.dependencies s ∅).card < p.length + 1 :=
      Nat.lt_succ_of_le ((Finset.card_filter_le _ _).trans (card_heads_le p))
    obtain ⟨m, hm⟩ := StratumMap.settle_ok least fits (start s) few
    rw [hm] at h
    cases h

theorem le_foldl_max_iff {l : List Nat} {a k : Nat} :
    k ≤ l.foldl max a ↔ k ≤ a ∨ ∃ n ∈ l, k ≤ n := by
  induction l generalizing a with
  | nil => simp
  | cons b l ih => simp [ih, or_assoc]

/-- The number of strata reaches just beyond the highest head. -/
theorem lt_height_iff (p : Program) (s : Predicate → Nat) (k : Nat) :
    (k < match p with
      | [] => 0
      | _ => (p.map fun r => s r.headPredicate).foldl max 0 + 1) ↔
      ∃ r ∈ p, k ≤ s r.headPredicate := by
  cases p with
  | nil => simp
  | cons r p =>
    rw [Nat.lt_succ_iff, le_foldl_max_iff]
    constructor
    · rintro (zero | ⟨n, hn, le⟩)
      · exact ⟨r, List.mem_cons_self, by omega⟩
      · obtain ⟨r', hr', rfl⟩ := List.mem_map.1 hn
        exact ⟨r', hr', le⟩
    · rintro ⟨r', hr', le⟩
      exact .inr ⟨_, List.mem_map.2 ⟨r', hr', rfl⟩, le⟩

theorem stratify_eq (p : Program) :
    p.stratify = (StratumMap.settle p.length p.dependencies (p.length + 1) ∅).map fun m =>
      { strata := (List.range (match p with
          | [] => 0
          | _ => (p.map fun r => m.of r.headPredicate).foldl max 0 + 1)).map
            fun k => p.filter fun r => m.of r.headPredicate = k
        stratumOf := m.of } := by
  unfold stratify
  cases StratumMap.settle p.length p.dependencies (p.length + 1) ∅ <;> rfl

/-- The strata found are the least layering. -/
theorem isLeast_stratumOf {p : Program} {s : Stratification} (h : p.stratify = .ok s) :
    IsLeast {f | p.LayeredBy f} s.stratumOf := by
  have spec := stratify_spec p
  rw [stratify_eq] at h
  split at spec
  · next m hm =>
    rw [hm] at h
    cases h
    exact spec
  · next e he =>
    rw [he] at h
    cases h

/-- Each stratum up to the highest head has its rules, in program order. -/
theorem getElem?_strata {p : Program} {s : Stratification} (h : p.stratify = .ok s) (k : Nat) :
    s.strata[k]? =
      if ∃ r ∈ p, k ≤ s.stratumOf r.headPredicate
      then some (p.filter fun r => s.stratumOf r.headPredicate = k) else none := by
  rw [stratify_eq] at h
  cases hm : StratumMap.settle p.length p.dependencies (p.length + 1) ∅ with
  | error e => rw [hm] at h; cases h
  | ok m =>
    rw [hm] at h
    cases h
    by_cases hk : ∃ r ∈ p, k ≤ m.of r.headPredicate
    · rw [if_pos hk, List.getElem?_map, List.getElem?_range ((lt_height_iff p m.of k).2 hk)]
      rfl
    · rw [if_neg hk, List.getElem?_eq_none_iff, List.length_map, List.length_range, ← not_lt,
        lt_height_iff]
      exact hk

/-- A program that is refused has no layering. -/
theorem not_layered_of_stratify {p : Program} {e : EngineError} (h : p.stratify = .error e) :
    (¬∃ f, p.LayeredBy f) ∧ ∃ q n, e = .stratification q n p.length := by
  have spec := stratify_spec p
  rw [stratify_eq] at h
  split at spec
  · next m hm =>
    rw [hm] at h
    cases h
  · next e he =>
    rw [he] at h
    cases h
    exact spec

/-- No stratum of the least layering exceeds the number of rules. -/
theorem level_le_length {p : Program} {s : Predicate → Nat} (least : IsLeast {f | p.LayeredBy f} s)
    (q : Predicate) : s q ≤ p.length := by
  rw [layerings_eq] at least
  exact (level_le_card_heads least q).trans (card_heads_le p)

/-- **Stratification is exact.** It succeeds on the programs that can be layered, which are those
without a cycle through negation, and then gives the least layering, never above the number of
rules, and the rules of each stratum in program order up to the highest head. It refuses the others
with a stratification error. -/
theorem stratify_exact (p : Program) :
    ((∃ s, p.stratify = .ok s) ↔ ∃ f, p.LayeredBy f) ∧
    ((∃ f, p.LayeredBy f) ↔ ¬p.HasNegativeCycle) ∧
    match p.stratify with
    | .ok s =>
      IsLeast {f | p.LayeredBy f} s.stratumOf ∧
      (∀ q, s.stratumOf q ≤ p.length) ∧
      ∀ k, s.strata[k]? =
        if ∃ r ∈ p, k ≤ s.stratumOf r.headPredicate
        then some (p.filter fun r => s.stratumOf r.headPredicate = k) else none
    | .error e => ∃ q n, e = .stratification q n p.length := by
  refine ⟨⟨?_, ?_⟩, exists_layeredBy_iff, ?_⟩
  · rintro ⟨s, h⟩
    exact ⟨s.stratumOf, (isLeast_stratumOf h).1⟩
  · intro layered
    cases h : p.stratify with
    | ok s => exact ⟨s, rfl⟩
    | error e => exact absurd layered (not_layered_of_stratify h).1
  · cases h : p.stratify with
    | ok s =>
      have least := isLeast_stratumOf h
      exact ⟨least, level_le_length least, getElem?_strata h⟩
    | error e => exact (not_layered_of_stratify h).2

end Program

end Datalog
