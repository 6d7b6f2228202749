import Datalog.Proofs.BuiltinRelations

/-!
# Arguments that a builtin computes

A builtin computes its one missing argument exactly when the others determine it: when there is one
and only one term that completes its relation (`Builtin.apply_exact`). Where the relation has an
inverse, what the inverse finds is unique because it finds every term that completes the relation.
Beside a factor zero there is none: every word completes the product zero and no other product is
completed at all, so nothing is determined there either.
-/

namespace Datalog.Builtin

variable {b : Builtin} {pre post : List Term} {t u : Term}

/-- Two terms that complete the relation are the same, unless a factor zero stands beside them. -/
theorem eq_of_relates (bind : b.canBind pre.length = true) (determined : ¬b.ZeroFactor pre post)
    (ht : b.Relates (pre ++ t :: post)) (hu : b.Relates (pre ++ u :: post)) : t = u := by
  have found_t := solve?_of_relates bind ht determined
  have found_u := solve?_of_relates bind hu determined
  rw [found_t] at found_u
  exact Option.some.inj found_u

/-- If any term completes a product with a factor zero, every word does. -/
theorem relates_of_zeroFactor (zero : b.ZeroFactor pre post) (h : b.Relates (pre ++ t :: post))
    (w : Int64) : b.Relates (pre ++ .int w :: post) := by
  obtain ⟨rfl, ⟨rfl, first⟩ | rfl⟩ := zero
  · have length := length_of_relates h
    have two : post.length = 2 := by simpa [arity] using length
    obtain ⟨c, d, rfl⟩ := List.length_eq_two.1 two
    cases first
    obtain ⟨x, y, z, rfl, hy, rfl, product⟩ := h
    cases hy
    rw [Int64.toInt_zero, Int.mul_zero] at product
    refine ⟨w, 0, z, rfl, rfl, rfl, ?_⟩
    show w.toInt * Int64.toInt 0 = z.toInt
    rw [Int64.toInt_zero, Int.mul_zero, product]
  · have length := length_of_relates h
    have one : post.length = 1 := by simpa [arity] using length
    obtain ⟨d, rfl⟩ := List.length_eq_one_iff.1 one
    obtain ⟨x, y, z, hx, rfl, rfl, product⟩ := h
    cases hx
    rw [Int64.toInt_zero, Int.zero_mul] at product
    refine ⟨0, w, z, rfl, rfl, rfl, ?_⟩
    show Int64.toInt 0 * w.toInt = z.toInt
    rw [Int64.toInt_zero, Int.zero_mul, product]

/-- A term is the only one that completes the relation when it does and no factor zero stands beside it. -/
theorem completes_uniquely_iff (bind : b.canBind pre.length = true) :
    (∀ u, b.Relates (pre ++ u :: post) ↔ u = t) ↔
      b.Relates (pre ++ t :: post) ∧ ¬b.ZeroFactor pre post := by
  constructor
  · intro only
    have relates : b.Relates (pre ++ t :: post) := (only t).2 rfl
    refine ⟨relates, fun zero => ?_⟩
    have one : Term.int 1 = t := (only _).1 (relates_of_zeroFactor zero relates 1)
    have two : Term.int 2 = t := (only _).1 (relates_of_zeroFactor zero relates 2)
    rw [← two] at one
    exact absurd one (by decide)
  · rintro ⟨relates, determined⟩ u
    constructor
    · intro hu
      exact eq_of_relates bind determined hu relates
    · rintro rfl
      exact relates

/-- With the right number of arguments, one of them missing, a builtin gives an answer. -/
theorem exists_apply_missing (b : Builtin) (length : pre.length + post.length + 1 = b.arity) :
    ∃ answer, b.apply (pre.map some ++ none :: post.map some) = .ok answer := by
  have len : (pre.map some ++ none :: post.map some).length = b.arity := by
    simp
    omega
  have one : (pre.map some ++ none :: post.map some).count none = 1 := by
    rw [List.count_append, List.count_cons_self, count_none_map_some, count_none_map_some]
  unfold apply
  rw [if_neg (fun ne => ne len), one]
  exact ⟨_, rfl⟩

/-- **A builtin computes an argument exactly when the others determine it.** Take any builtin, any
position that it can bind and any terms for the other arguments. Applied with that position missing,
the builtin always answers: with the arguments completed by the one and only term for which its
relation holds, if there is one, and with nothing otherwise. Applied to all its arguments, it answers
with these arguments exactly when its relation holds of them. -/
theorem apply_exact (b : Builtin) :
    (∀ pre post : List Term, b.canBind pre.length = true → pre.length + post.length + 1 = b.arity →
      ∃ answer, b.apply (pre.map some ++ none :: post.map some) = .ok answer ∧
        ∀ ts, answer = some ts ↔
          ∃ t, ts = pre ++ t :: post ∧ ∀ u, b.Relates (pre ++ u :: post) ↔ u = t) ∧
    ∀ ts : List Term, ts.length = b.arity →
      ∃ answer, b.apply (ts.map some) = .ok answer ∧
        ∀ ts', answer = some ts' ↔ ts' = ts ∧ b.Relates ts := by
  constructor
  · intro pre post bind length
    obtain ⟨answer, applied⟩ := exists_apply_missing b length
    refine ⟨answer, applied, fun ts => ?_⟩
    have completed : b.apply (pre.map some ++ none :: post.map some) = .ok (some ts) ↔ _ :=
      apply_missing_eq_some_iff bind
    rw [applied, Except.ok.injEq] at completed
    rw [completed]
    simp only [completes_uniquely_iff bind]
    constructor
    · rintro ⟨t, rfl, relates, determined⟩
      exact ⟨t, rfl, relates, determined⟩
    · rintro ⟨t, rfl, relates, determined⟩
      exact ⟨t, rfl, relates, determined⟩
  · intro ts length
    refine ⟨_, apply_bound length, fun ts' => ?_⟩
    rw [← holds_iff_relates]
    cases b.holds ts with
    | false => simp
    | true => simp [eq_comm]

/-- At the limits of the words: twelve determines its factor beside four, and zero does not beside
zero; the quotient of the least word by minus one is no word. A text determines what stands before its
end. -/
theorem apply_exact_at_limits :
    (multiply.canBind 0 = true ∧ divide.canBind 2 = true ∧ concat.canBind 0 = true) ∧
    (∀ u, multiply.Relates [u, .int 4, .int 12] ↔ u = .int 3) ∧
    (¬∃ t, ∀ u, multiply.Relates [u, .int 0, .int 0] ↔ u = t) ∧
    (¬∃ t, ∀ u, divide.Relates [.int Int64.minValue, .int (-1), u] ↔ u = t) ∧
    ∀ u, concat.Relates [u, .str "aba", .str "ababa"] ↔ u = .str "ab" := by
  have determined {b : Builtin} {post : List Term} {t : Term} (bind : b.canBind 0 = true)
      (length : 0 + post.length + 1 = b.arity)
      (computed : b.apply (none :: post.map some) = .ok (some (t :: post))) :
      ∀ u, b.Relates (u :: post) ↔ u = t := by
    obtain ⟨answer, applied, completed⟩ := (apply_exact b).1 [] post bind length
    rw [List.map_nil, List.nil_append, computed, Except.ok.injEq] at applied
    obtain ⟨t', same, only⟩ := (completed _).1 applied.symm
    cases same
    exact only
  have undetermined {b : Builtin} (pre post : List Term) (bind : b.canBind pre.length = true)
      (length : pre.length + post.length + 1 = b.arity)
      (computed : b.apply (pre.map some ++ none :: post.map some) = .ok none) :
      ¬∃ t, ∀ u, b.Relates (pre ++ u :: post) ↔ u = t := by
    obtain ⟨answer, applied, completed⟩ := (apply_exact b).1 pre post bind length
    rw [computed, Except.ok.injEq] at applied
    rintro ⟨t, only⟩
    have found := (completed _).2 ⟨t, rfl, only⟩
    rw [← applied] at found
    cases found
  refine ⟨by decide, ?_, ?_, ?_, ?_⟩
  · exact determined (by decide) (by decide) (by decide +kernel)
  · exact undetermined [] [.int 0, .int 0] (by decide) (by decide) (by decide +kernel)
  · exact undetermined [.int Int64.minValue, .int (-1)] [] (by decide) (by decide) (by decide +kernel)
  · exact determined (by decide) (by decide) (by decide +kernel)

end Datalog.Builtin
