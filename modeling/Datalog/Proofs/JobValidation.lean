import Datalog.Dataflow

/-!
# Which jobs are accepted

A job is sound when the keys of its joins pair up and every input node finds a relation of its arity
(`Job.Sound`). The check looks at each name once, with the arity that the first input node of the name
expects. So it accepts every sound job, and a job that it accepts is sound unless two nodes read the
tuples of one name at different arities (`Job.acceptance_exact`).
-/

namespace Datalog

/-! ### Steps that may fail -/

theorem bind_eq_ok_iff {ε α β : Type} {x : Except ε α} {f : α → Except ε β} {b : β} :
    (x >>= f) = .ok b ↔ ∃ a, x = .ok a ∧ f a = .ok b := by
  cases x with
  | error e =>
    constructor
    · intro h
      cases h
    · rintro ⟨a, h, -⟩
      cases h
  | ok a =>
    constructor
    · intro h
      exact ⟨a, rfl, h⟩
    · rintro ⟨a', h, h'⟩
      cases h
      exact h'

theorem seq_eq_ok_iff {ε β : Type} {x : Except ε Unit} {y : Except ε β} {b : β} :
    (x >>= fun _ => y) = .ok b ↔ x = .ok () ∧ y = .ok b := by
  rw [bind_eq_ok_iff]
  exact ⟨fun ⟨_, first, rest⟩ => ⟨first, rest⟩, fun ⟨first, rest⟩ => ⟨(), first, rest⟩⟩

theorem forM_eq_ok_iff {α ε : Type} {f : α → Except ε Unit} {l : List α} :
    l.forM f = .ok () ↔ ∀ a ∈ l, f a = .ok () := by
  induction l with
  | nil => exact iff_of_true rfl (by simp)
  | cons a l ih =>
    rw [show (a :: l).forM f = f a >>= fun _ => l.forM f from rfl, seq_eq_ok_iff, ih,
      List.forall_mem_cons]

/-! ### The nodes of a plan -/

namespace Plan

variable {p q : Plan}

/-- The plans whose rows the outermost operator reads. -/
def operands : Plan → List Plan
  | .input _ _ => []
  | .filter p _ => [p]
  | .unify p _ => [p]
  | .join l r _ _ _ => [l, r]
  | .antijoin l r _ _ => [l, r]
  | .builtin p _ => [p]
  | .substitute p _ => [p]

/-- A plan has itself as a node, and the nodes of its operands. -/
inductive HasNode : Plan → Plan → Prop
  | self (p : Plan) : HasNode p p
  | operand {p c q : Plan} (reads : c ∈ p.operands) (node : HasNode c q) : HasNode p q

/-- The keys of a join or an antijoin pair up one to one. -/
def PairsKeys : Plan → Prop
  | .join _ _ leftKeys rightKeys _ => leftKeys.length = rightKeys.length
  | .antijoin _ _ leftKeys rightKeys => leftKeys.length = rightKeys.length
  | _ => True

theorem hasNode_iff : p.HasNode q ↔ q = p ∨ ∃ c ∈ p.operands, c.HasNode q := by
  constructor
  · intro h
    cases h with
    | self => exact .inl rfl
    | operand reads node => exact .inr ⟨_, reads, node⟩
  · rintro (rfl | ⟨c, reads, node⟩)
    · exact .self q
    · exact .operand reads node

/-- What holds of every node holds of the outermost one and of the nodes of the operands. -/
theorem forall_hasNode_iff {P : Plan → Prop} :
    (∀ q, p.HasNode q → P q) ↔ P p ∧ ∀ c ∈ p.operands, ∀ q, c.HasNode q → P q := by
  constructor
  · exact fun all => ⟨all p (.self p), fun c reads q node => all q (.operand reads node)⟩
  · rintro ⟨own, below⟩ q node
    rcases hasNode_iff.1 node with rfl | ⟨c, reads, node⟩
    · exact own
    · exact below c reads q node

/-- What holds of a plan whenever it holds of its operands holds of every plan. -/
theorem induction_on_operands {P : Plan → Prop} (step : ∀ p : Plan, (∀ c ∈ p.operands, P c) → P p)
    (p : Plan) : P p := by
  induction p with
  | input name arity => exact step _ (by simp [operands])
  | filter p f ih => exact step _ (by simpa [operands] using ih)
  | unify p pattern ih => exact step _ (by simpa [operands] using ih)
  | join l r lk rk keep left right => exact step _ (by simpa [operands] using ⟨left, right⟩)
  | antijoin l r lk rk left right => exact step _ (by simpa [operands] using ⟨left, right⟩)
  | builtin p call ih => exact step _ (by simpa [operands] using ih)
  | substitute p template ih => exact step _ (by simpa [operands] using ih)

/-- The check of the keys looks at the outermost operator and then at its operands. -/
theorem checkKeys_step : p.checkKeys = .ok () ↔ p.PairsKeys ∧ ∀ c ∈ p.operands, c.checkKeys = .ok () := by
  have operator {lk rk : List Nat} {l r : Plan} :
      (if lk.length ≠ rk.length then Except.error (.keyLengths lk rk)
        else do l.checkKeys; r.checkKeys) = .ok () ↔
      lk.length = rk.length ∧ ∀ c ∈ [l, r], c.checkKeys = .ok () := by
    split
    · next differ => exact iff_of_false (fun h => by cases h) fun h => differ h.1
    · next pair =>
      rw [seq_eq_ok_iff, and_iff_right (Decidable.not_not.1 pair)]
      simp
  cases p with
  | join l r lk rk keep => exact operator
  | antijoin l r lk rk => exact operator
  | input name arity => simp [checkKeys, PairsKeys, operands]
  | filter p f => simp [checkKeys, PairsKeys, operands]
  | unify p pattern => simp [checkKeys, PairsKeys, operands]
  | builtin p call => simp [checkKeys, PairsKeys, operands]
  | substitute p template => simp [checkKeys, PairsKeys, operands]

/-- The check of the keys looks at every node. -/
theorem checkKeys_eq_ok_iff : p.checkKeys = .ok () ↔ ∀ q, p.HasNode q → q.PairsKeys := by
  induction p using induction_on_operands with
  | step p ih =>
    rw [checkKeys_step, forall_hasNode_iff]
    exact and_congr_right fun _ => forall₂_congr fun c reads => ih c reads

/-- The inputs that are listed are the input nodes. -/
theorem mem_inputNodes_iff {name : String} {arity : Nat} :
    (name, arity) ∈ p.inputNodes ↔ p.HasNode (.input name arity) := by
  have listed (p : Plan) : (name, arity) ∈ p.inputNodes ↔
      .input name arity = p ∨ ∃ c ∈ p.operands, (name, arity) ∈ c.inputNodes := by
    cases p <;> simp [inputNodes, operands]
  induction p using induction_on_operands with
  | step p ih =>
    rw [listed, hasNode_iff]
    exact or_congr Iff.rfl (exists_congr fun c => and_congr_right fun reads => ih c reads)

theorem mem_of_mem_firstOfEachName {e : String × Nat} {es : List (String × Nat)}
    (h : e ∈ firstOfEachName es) : e ∈ es := by
  induction es with
  | nil => exact h
  | cons e' es ih =>
    rw [firstOfEachName, List.mem_cons] at h
    rcases h with rfl | h
    · exact List.mem_cons_self
    · exact List.mem_cons_of_mem _ (ih (List.mem_filter.1 h).1)

/-- Of each name the first entry is kept. -/
theorem mem_firstOfEachName_iff {e : String × Nat} {es : List (String × Nat)} :
    e ∈ firstOfEachName es ↔ es.lookup e.1 = some e.2 := by
  induction es with
  | nil => simp [firstOfEachName]
  | cons e' es ih =>
    rw [firstOfEachName, List.mem_cons, List.mem_filter, ih, List.lookup_cons]
    by_cases same : e.1 = e'.1
    · simp [same, Prod.ext_iff, eq_comm]
    · have other : e ≠ e' := fun h => same (congrArg Prod.fst h)
      rw [beq_false_of_ne same]
      simp [same, other]

theorem hasNode_of_lookup {name : String} {arity : Nat}
    (first : p.inputNodes.lookup name = some arity) : p.HasNode (.input name arity) :=
  mem_inputNodes_iff.1
    (mem_of_mem_firstOfEachName (mem_firstOfEachName_iff (e := (name, arity)).2 first))

end Plan

/-! ### Jobs -/

/-- The name is bound to a relation of the arity. -/
def Sources.Supplies (sources : Sources) (name : String) (arity : Nat) : Prop :=
  ∃ r, sources.get? name = some r ∧ r.HasArity arity

theorem Sources.checkInput_eq_ok_iff {sources : Sources} {name : String} {arity : Nat} :
    sources.checkInput name arity = .ok () ↔ sources.Supplies name arity := by
  unfold checkInput Supplies
  cases sources.get? name with
  | none => simp
  | some r =>
    have right : (r.toList.find? fun t => t.length ≠ arity) = none ↔ r.HasArity arity := by
      simp [Relation.HasArity, Tuple.arity, SortedSet.mem_def]
    simp only [Option.some.injEq, exists_eq_left', ← right]
    cases r.toList.find? fun t => t.length ≠ arity <;> simp

namespace Job

/-- The keys of every join and antijoin pair up, and every input node finds a relation of its arity. -/
structure Sound (job : Job) : Prop where
  keys : ∀ q, job.plan.HasNode q → q.PairsKeys
  inputs : ∀ name arity, job.plan.HasNode (.input name arity) → job.sources.Supplies name arity

/-- No two input nodes read the tuples of one name at different arities. -/
def ReadsAlike (job : Job) : Prop :=
  ∀ name n m, job.plan.HasNode (.input name n) → job.plan.HasNode (.input name m) →
    (job.sources.getD name ∅).isEmpty = false → n = m

/-- A job is accepted for its keys and the first input node of each name. -/
theorem validate_eq_ok_iff {job : Job} : job.validate = .ok () ↔
    (∀ q, job.plan.HasNode q → q.PairsKeys) ∧
      ∀ name arity, job.plan.inputNodes.lookup name = some arity → job.sources.Supplies name arity := by
  have inputs : (job.plan.inputs.forM fun e => job.sources.checkInput e.1 e.2) = .ok () ↔
      ∀ name arity, job.plan.inputNodes.lookup name = some arity → job.sources.Supplies name arity := by
    simp only [forM_eq_ok_iff, Plan.inputs, Plan.mem_firstOfEachName_iff, Sources.checkInput_eq_ok_iff,
      Prod.forall]
  rw [← Plan.checkKeys_eq_ok_iff, ← inputs, validate, seq_eq_ok_iff]

/-- Sound jobs are accepted. -/
theorem Sound.validate_ok {job : Job} (sound : job.Sound) : job.validate = .ok () :=
  validate_eq_ok_iff.2 ⟨sound.keys, fun name arity first =>
    sound.inputs name arity (Plan.hasNode_of_lookup first)⟩

/-- **Which jobs are accepted.** A job is accepted exactly when the keys of every join and antijoin pair up
and every name that is read is bound to a relation of the arity that the first input node of the name
expects. That is a sound job exactly when its input nodes read alike: the arities that later nodes of a
name expect are not looked at. -/
theorem acceptance_exact (job : Job) :
    (job.validate = .ok () ↔ (∀ q, job.plan.HasNode q → q.PairsKeys) ∧
      ∀ name arity, job.plan.inputNodes.lookup name = some arity → job.sources.Supplies name arity) ∧
    (job.Sound ↔ job.validate = .ok () ∧ job.ReadsAlike) := by
  refine ⟨validate_eq_ok_iff, fun sound => ⟨sound.validate_ok, ?_⟩, ?_⟩
  · intro name n m first second filled
    obtain ⟨r, bound, right⟩ := sound.inputs name n first
    obtain ⟨r', bound', right'⟩ := sound.inputs name m second
    rw [bound] at bound'
    cases bound'
    rw [SortedMap.getD, bound] at filled
    obtain ⟨t, ht⟩ := SortedSet.isEmpty_eq_false_iff.1 filled
    exact (right t ht).symm.trans (right' t ht)
  · rintro ⟨accepted, alike⟩
    obtain ⟨keys, inputs⟩ := validate_eq_ok_iff.1 accepted
    refine ⟨keys, fun name arity node => ?_⟩
    obtain ⟨first, found⟩ : ∃ first, job.plan.inputNodes.lookup name = some first := by
      cases found : job.plan.inputNodes.lookup name with
      | some first => exact ⟨first, rfl⟩
      | none =>
        have listed := Plan.mem_inputNodes_iff.2 node
        exact absurd (List.lookup_eq_none_iff.1 found _ listed) (by simp)
    obtain ⟨r, bound, right⟩ := inputs name first found
    refine ⟨r, bound, fun t ht => ?_⟩
    have filled : (job.sources.getD name ∅).isEmpty = false := by
      rw [SortedMap.getD, bound]
      exact SortedSet.isEmpty_eq_false_iff.2 ⟨t, ht⟩
    rw [right t ht, alike name first arity (Plan.hasNode_of_lookup found) node filled]

/-- Edges are read in two places, once as if they had a third column. -/
def mixedJob : Job where
  plan := .join (.input "edge" 2) (.input "edge" 3) [1] [0] [1]
  sources := (∅ : Sources).insert "edge" (SortedSet.singleton (Tuple.ofInts [1, 2]))
  sink := "out"

/-- The job is accepted, and one of its nodes does not find what it expects. -/
theorem mixedJob_accepted : mixedJob.validate = .ok () ∧ ¬mixedJob.Sound := by
  have accepted : mixedJob.validate = .ok () := rfl
  refine ⟨accepted, fun sound => ?_⟩
  have left : mixedJob.plan.HasNode (.input "edge" 2) :=
    .operand (c := .input "edge" 2) (by simp [mixedJob, Plan.operands]) (.self _)
  have right : mixedJob.plan.HasNode (.input "edge" 3) :=
    .operand (c := .input "edge" 3) (by simp [mixedJob, Plan.operands]) (.self _)
  have alike := ((acceptance_exact mixedJob).2.1 sound).2 "edge" 2 3 left right (by decide +kernel)
  cases alike

end Job

end Datalog
