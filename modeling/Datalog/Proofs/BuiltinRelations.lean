import Mathlib.Algebra.Ring.Int.Defs
import Mathlib.Data.List.Basic
import Datalog.Error

/-!
# The relations of the builtins

`Builtin.Relates` says over the unbounded integers, texts and lists what each builtin relates;
`Builtin.holds` decides it (`holds_iff_relates`). Where a builtin computes its one missing argument,
the value it finds is the only one that completes the relation, and it finds it whenever there is
one (`solve?_of_relates`), with one exception: a product does not determine a factor when the other
factor is zero.
-/

namespace Datalog

/-- The order of constants of one kind: integers by value, strings by their characters, and false
before true. -/
inductive Term.Less : Term → Term → Prop
  | int {m n : Int64} : m.toInt < n.toInt → Less (.int m) (.int n)
  | str {s t : String} : s < t → Less (.str s) (.str t)
  | bool : Less (.bool false) (.bool true)

/-- The three terms are words related by `R`. -/
def Term.AreWords (R : Int64 → Int64 → Int64 → Prop) (a b c : Term) : Prop :=
  ∃ x y z : Int64, a = .int x ∧ b = .int y ∧ c = .int z ∧ R x y z

/-- The truncated division of one word by another has a quotient that is a word. -/
def Word.Divides (x y : Int64) : Prop := y ≠ 0 ∧ ¬(x = Int64.minValue ∧ y = -1)

namespace Builtin

/-- What a builtin relates. -/
def Relates : Builtin → List Term → Prop
  | .equal, [a, b] => a = b
  | .notEqual, [a, b] => a ≠ b
  | .less, [a, b] => a.Less b
  | .lessEqual, [a, b] => a.Less b ∨ a = b ∧ ∃ v, a = .const v
  | .greater, [a, b] => b.Less a
  | .greaterEqual, [a, b] => b.Less a ∨ a = b ∧ ∃ v, a = .const v
  | .add, [a, b, c] => Term.AreWords (fun x y z => x.toInt + y.toInt = z.toInt) a b c
  | .subtract, [a, b, c] => Term.AreWords (fun x y z => x.toInt - y.toInt = z.toInt) a b c
  | .multiply, [a, b, c] => Term.AreWords (fun x y z => x.toInt * y.toInt = z.toInt) a b c
  | .divide, [a, b, c] =>
    Term.AreWords (fun x y z => Word.Divides x y ∧ z.toInt = x.toInt.tdiv y.toInt) a b c
  | .modulus, [a, b, c] =>
    Term.AreWords
      (fun x y z => Word.Divides x y ∧ z.toInt = x.toInt - y.toInt * x.toInt.tdiv y.toInt) a b c
  | .concat, [a, b, c] => ∃ s t, a = .str s ∧ b = .str t ∧ c = .str (s ++ t)
  | .stringLength, [a, b] => ∃ s n, a = .str s ∧ b = .int n ∧ n.toInt = s.length
  | .listLength, [a, b] => ∃ ts n, a = .app Term.listFunctor ts ∧ b = .int n ∧ n.toInt = ts.length
  | _, _ => False

end Builtin

/-! ### Words -/

namespace Word

theorem ofInt?_isSome_iff {z : Int} : (ofInt? z).isSome ↔ -2 ^ 63 ≤ z ∧ z < 2 ^ 63 := by
  constructor
  · intro h
    obtain ⟨w, hw⟩ := Option.isSome_iff_exists.1 h
    rw [← ofInt?_eq_some_iff.1 hw]
    exact ⟨w.le_toInt, w.toInt_lt⟩
  · rintro ⟨low, high⟩
    rw [ofInt?, if_pos (Int64.toInt_ofInt_of_le low high)]
    rfl

theorem toInt_eq_zero_iff {y : Int64} : y.toInt = 0 ↔ y = 0 := by
  rw [← Int64.toInt_inj]
  rfl

theorem quotient?_eq_some_iff {x y q : Int64} :
    quotient? x y = some q ↔ y ≠ 0 ∧ q.toInt = x.toInt.tdiv y.toInt := by
  rw [quotient?]
  split
  · next h => simp [h]
  · next h => simp [ofInt?_eq_some_iff, h]

/-- Dividing the least word by minus one leaves the words; no other division does. -/
theorem quotient?_isSome_iff {x y : Int64} : (quotient? x y).isSome ↔ Divides x y := by
  have low := x.le_toInt
  have high := x.toInt_lt
  rw [Divides, quotient?]
  split
  · next h => simp [h]
  · next h =>
    rw [ofInt?_isSome_iff, and_iff_right h]
    have min : x = Int64.minValue ↔ x.toInt = -2 ^ 63 := by
      rw [← Int64.toInt_inj]
      rfl
    have neg : y = -1 ↔ y.toInt = -1 := by
      rw [← Int64.toInt_inj]
      rfl
    rw [min, neg]
    have nonzero : y.toInt ≠ 0 := fun e => h (toInt_eq_zero_iff.1 e)
    by_cases e : y.toInt = -1
    · have value : x.toInt.tdiv y.toInt = -x.toInt := by rw [e, Int.tdiv_neg, Int.tdiv_one]
      rw [value]
      omega
    · -- The divisor is one, or halves the absolute value at least.
      have abs := Int.natAbs_tdiv x.toInt y.toInt
      by_cases one : y.toInt = 1
      · rw [one, Int.tdiv_one]
        omega
      · have half : x.toInt.natAbs / y.toInt.natAbs ≤ x.toInt.natAbs / 2 :=
          Nat.div_le_div_left (by omega) (by omega)
        change _ = x.toInt.natAbs / y.toInt.natAbs at abs
        omega

theorem remainder?_eq_some_iff {x y r : Int64} :
    remainder? x y = some r ↔ Divides x y ∧ r.toInt = x.toInt.tmod y.toInt := by
  rw [remainder?]
  split
  · next h => rw [ofInt?_eq_some_iff, and_iff_right (quotient?_isSome_iff.1 h)]
  · next h => simp [← quotient?_isSome_iff, h]

/-- An exact division by a word other than zero gives the one factor that completes the product. -/
theorem exactQuotient?_of_mul {x y z : Int64} (nonzero : y ≠ 0) (h : x.toInt * y.toInt = z.toInt) :
    exactQuotient? z y = some x := by
  have nz : y.toInt ≠ 0 := fun e => nonzero (toInt_eq_zero_iff.1 e)
  have quotient : quotient? z y = some x := by
    rw [quotient?_eq_some_iff, ← h, Int.mul_tdiv_cancel _ nz]
    exact ⟨nonzero, rfl⟩
  have exact : remainder? z y = some 0 := by
    rw [remainder?_eq_some_iff, ← quotient?_isSome_iff, quotient, ← h, Int.mul_tmod_left]
    exact ⟨rfl, rfl⟩
  rw [exactQuotient?, if_pos exact, quotient]

theorem exactQuotient?_zero (z : Int64) : exactQuotient? z 0 = none := by
  have none_left : quotient? z 0 = none := by simp [quotient?]
  simp [exactQuotient?, remainder?, none_left]

end Word

/-! ### Readings of terms -/

namespace Term

theorem int?_eq_some_iff {t : Term} {n : Int64} : t.int? = some n ↔ t = .int n := by
  cases t with
  | const v => cases v <;> simp [int?, value?, Value.int?, Term.int]
  | var x => simp [int?, value?, Term.int]
  | app f ts => simp [int?, value?, Term.int]

theorem str?_eq_some_iff {t : Term} {s : String} : t.str? = some s ↔ t = .str s := by
  cases t with
  | const v => cases v <;> simp [str?, value?, Value.str?, Term.str]
  | var x => simp [str?, value?, Term.str]
  | app f ts => simp [str?, value?, Term.str]

@[simp] theorem int?_int (n : Int64) : (Term.int n).int? = some n := rfl

@[simp] theorem str?_str (s : String) : (Term.str s).str? = some s := rfl

end Term

namespace Builtin

theorem items?_eq_some_iff {t : Term} {ts : List Term} :
    items? t = some ts ↔ t = .app Term.listFunctor ts := by
  cases t with
  | app f us => by_cases h : f = Term.listFunctor <;> simp [items?, h]
  | var x => simp [items?]
  | const v => simp [items?]

theorem order?_eq_lt_iff {a b : Term} : order? a b = some .lt ↔ a.Less b := by
  constructor
  · intro h
    unfold order? at h
    split at h
    · next x y =>
      exact .int (Int64.lt_iff_toInt_lt.1 (Std.compare_eq_lt.1 (Option.some.inj h)))
    · next x y => exact .str (compareOfLessAndEq_eq_lt.1 (Option.some.inj h))
    · next x y =>
      cases x with
      | false =>
        cases y with
        | false => cases h
        | true => exact .bool
      | true => cases y <;> cases h
    · cases h
  · rintro (h | h | -)
    · exact congrArg some (Std.compare_eq_lt.2 (Int64.lt_iff_toInt_lt.2 h))
    · exact congrArg some (compareOfLessAndEq_eq_lt.2 h)
    · rfl

/-- Comparing the other way round gives the opposite answer. -/
theorem order?_swap (a b : Term) : order? b a = (order? a b).map Ordering.swap := by
  unfold order?
  split
  · next x y => exact congrArg some Std.OrientedCmp.eq_swap
  · next x y => exact congrArg some Std.OrientedCmp.eq_swap
  · next x y => exact congrArg some Std.OrientedCmp.eq_swap
  · next h₁ h₂ h₃ =>
    split
    · next x y => exact absurd rfl (h₁ _ _ rfl)
    · next x y => exact absurd rfl (h₂ _ _ rfl)
    · next x y => exact absurd rfl (h₃ _ _ rfl)
    · rfl

theorem order?_eq_gt_iff {a b : Term} : order? a b = some .gt ↔ b.Less a := by
  rw [← order?_eq_lt_iff, order?_swap a b]
  cases order? a b with
  | none => simp
  | some o => cases o <;> simp

theorem order?_eq_eq_iff {a b : Term} : order? a b = some .eq ↔ a = b ∧ ∃ v, a = .const v := by
  constructor
  · intro h
    unfold order? at h
    split at h
    · next x y => simp [Std.LawfulEqOrd.eq_of_compare (Option.some.inj h)]
    · next x y => simp [Std.LawfulEqOrd.eq_of_compare (Option.some.inj h)]
    · next x y => simp [Std.LawfulEqOrd.eq_of_compare (Option.some.inj h)]
    · cases h
  · rintro ⟨rfl, v, rfl⟩
    cases v <;> simp [order?]

/-- The arithmetic builtins compute what they relate. -/
theorem arithmetic?_eq_some_iff {b : Builtin} {x y z : Int64}
    (arith : b ∈ [Builtin.add, .subtract, .multiply, .divide, .modulus]) :
    b.arithmetic? x y = some z ↔ b.Relates [.int x, .int y, .int z] := by
  have words (R : Int64 → Int64 → Int64 → Prop) :
      Term.AreWords R (.int x) (.int y) (.int z) ↔ R x y z := by
    simp [Term.AreWords, Term.int]
  simp only [List.mem_cons, List.not_mem_nil, or_false] at arith
  rcases arith with rfl | rfl | rfl | rfl | rfl
  · rw [arithmetic?, Relates, words, Word.ofInt?_eq_some_iff, eq_comm]
  · rw [arithmetic?, Relates, words, Word.ofInt?_eq_some_iff, eq_comm]
  · rw [arithmetic?, Relates, words, Word.ofInt?_eq_some_iff, eq_comm]
  · rw [arithmetic?, Relates, words]
    constructor
    · intro h
      refine ⟨Word.quotient?_isSome_iff.1 (by rw [h]; rfl), ?_⟩
      exact (Word.quotient?_eq_some_iff.1 h).2
    · rintro ⟨divides, h⟩
      exact Word.quotient?_eq_some_iff.2 ⟨divides.1, h⟩
  · rw [arithmetic?, Relates, words, Word.remainder?_eq_some_iff, Int.tmod_def]

/-- Three terms that an arithmetic builtin relates are words. -/
theorem relates_words {b : Builtin} {a c d : Term}
    (arith : b ∈ [Builtin.add, .subtract, .multiply, .divide, .modulus])
    (h : b.Relates [a, c, d]) : ∃ x y z : Int64, a = .int x ∧ c = .int y ∧ d = .int z := by
  simp only [List.mem_cons, List.not_mem_nil, or_false] at arith
  rcases arith with rfl | rfl | rfl | rfl | rfl <;>
  · obtain ⟨x, y, z, rfl, rfl, rfl, -⟩ := h
    exact ⟨x, y, z, rfl, rfl, rfl⟩

/-- What the arithmetic builtins check of three terms. -/
theorem arithmetic_check_iff {b : Builtin} {a c d : Term}
    (arith : b ∈ [Builtin.add, .subtract, .multiply, .divide, .modulus]) :
    (match a.int?, c.int?, d.int? with
      | some x, some y, some z => b.arithmetic? x y == some z
      | _, _, _ => false) = true ↔ b.Relates [a, c, d] := by
  constructor
  · intro h
    split at h
    · next x y z hx hy hz =>
      rw [Term.int?_eq_some_iff] at hx hy hz
      subst hx hy hz
      exact (arithmetic?_eq_some_iff arith).1 (by simpa using h)
    · cases h
  · intro h
    obtain ⟨x, y, z, rfl, rfl, rfl⟩ := relates_words arith h
    simpa using (arithmetic?_eq_some_iff arith).2 h

theorem order?_isLE_iff {a b : Term} :
    (order? a b).any Ordering.isLE = true ↔ a.Less b ∨ a = b ∧ ∃ v, a = .const v := by
  rw [← order?_eq_lt_iff, ← order?_eq_eq_iff]
  cases order? a b with
  | none => simp
  | some o => cases o <;> simp

theorem order?_isGE_iff {a b : Term} :
    (order? a b).any Ordering.isGE = true ↔ b.Less a ∨ a = b ∧ ∃ v, a = .const v := by
  rw [← order?_eq_gt_iff, ← order?_eq_eq_iff]
  cases order? a b with
  | none => simp
  | some o => cases o <;> simp

/-- A text that another of the same size ends with is that other text. -/
theorem eq_of_suffix {s t : String} (suffix : s.toList <:+ t.toList)
    (size : t.utf8ByteSize = s.utf8ByteSize) : s = t := by
  obtain ⟨gap, split⟩ := suffix
  have whole : String.ofList gap ++ s = t := by
    rw [← String.toList_inj, String.toList_append, String.toList_ofList, split]
  have nothing : (String.ofList gap).utf8ByteSize = 0 := by
    rw [← whole, String.utf8ByteSize_append] at size
    omega
  rw [String.utf8ByteSize_eq_zero_iff.1 nothing, String.empty_append] at whole
  exact whole

/-- Beginning, end and size make a concatenation. -/
theorem isConcat_iff {front back whole : String} :
    isConcat front back whole = true ↔ whole = front ++ back := by
  rw [isConcat, Bool.and_eq_true, Bool.and_eq_true, beq_iff_eq, List.isPrefixOf_iff_prefix,
    List.isSuffixOf_iff_suffix]
  constructor
  · rintro ⟨⟨size, rest, starts⟩, ends⟩
    have split : whole = front ++ String.ofList rest := by
      rw [← String.toList_inj, String.toList_append, String.toList_ofList, starts]
    have same : (String.ofList rest).utf8ByteSize = back.utf8ByteSize := by
      rw [split, String.utf8ByteSize_append] at size
      omega
    -- What follows the front and the back both end the text, so one of them ends the other.
    have rest_ends : (String.ofList rest).toList <:+ whole.toList := by
      rw [String.toList_ofList]
      exact ⟨_, starts⟩
    rw [split]
    rcases List.suffix_or_suffix_of_suffix rest_ends ends with shorter | longer
    · rw [eq_of_suffix shorter same.symm]
    · rw [eq_of_suffix longer same]
  · rintro rfl
    simp

theorem holds_concat_iff {a b c : Term} :
    holds .concat [a, b, c] = true ↔ Relates .concat [a, b, c] := by
  rw [holds, Relates]
  constructor
  · intro h
    split at h
    · next s t u hs ht hu =>
      rw [Term.str?_eq_some_iff] at hs ht hu
      exact ⟨s, t, hs, ht, by rw [hu, isConcat_iff.1 h]⟩
    · cases h
  · rintro ⟨s, t, rfl, rfl, rfl⟩
    simpa using isConcat_iff.2 rfl

theorem holds_stringLength_iff {a b : Term} :
    holds .stringLength [a, b] = true ↔ Relates .stringLength [a, b] := by
  rw [holds, Relates]
  constructor
  · intro h
    split at h
    · next s n hs hn =>
      rw [Term.str?_eq_some_iff] at hs
      rw [Term.int?_eq_some_iff] at hn
      exact ⟨s, n, hs, hn, (of_decide_eq_true h).symm⟩
    · cases h
  · rintro ⟨s, n, rfl, rfl, h⟩
    simp [h]

theorem holds_listLength_iff {a b : Term} :
    holds .listLength [a, b] = true ↔ Relates .listLength [a, b] := by
  rw [holds, Relates]
  constructor
  · intro h
    split at h
    · next ts n hs hn =>
      rw [items?_eq_some_iff] at hs
      rw [Term.int?_eq_some_iff] at hn
      exact ⟨ts, n, hs, hn, (of_decide_eq_true h).symm⟩
    · cases h
  · rintro ⟨ts, n, rfl, rfl, h⟩
    simp [items?, h]

/-- The check of a builtin decides its relation. -/
theorem holds_iff_relates (b : Builtin) (ts : List Term) : b.holds ts = true ↔ b.Relates ts := by
  match ts with
  | [] => cases b <;> simp [holds, Relates]
  | [a] => cases b <;> simp [holds, Relates]
  | [a, c] =>
    cases b with
    | equal => simp [holds, Relates]
    | notEqual => simp [holds, Relates]
    | less => rw [holds, Relates, ← order?_eq_lt_iff, beq_iff_eq]
    | lessEqual => exact order?_isLE_iff
    | greater => rw [holds, Relates, ← order?_eq_gt_iff, beq_iff_eq]
    | greaterEqual => exact order?_isGE_iff
    | stringLength => exact holds_stringLength_iff
    | listLength => exact holds_listLength_iff
    | _ => simp [holds, Relates]
  | [a, c, d] =>
    cases b with
    | add => exact arithmetic_check_iff (by simp)
    | subtract => exact arithmetic_check_iff (by simp)
    | multiply => exact arithmetic_check_iff (by simp)
    | divide => exact arithmetic_check_iff (by simp)
    | modulus => exact arithmetic_check_iff (by simp)
    | concat => exact holds_concat_iff
    | _ =>
      -- A builtin of two arguments computes nothing from three.
      simp only [holds, Relates, iff_false, Bool.not_eq_true]
      split <;> simp [arithmetic?]
  | _ :: _ :: _ :: _ :: _ => cases b <;> simp [holds, Relates]

/-! ### Computing the missing argument -/

/-- A product with one factor missing, where the other factor is zero. -/
def ZeroFactor (b : Builtin) (pre post : List Term) : Prop :=
  b = .multiply ∧ ((pre = [] ∧ post.head? = some (.int 0)) ∨ pre = [.int 0])

theorem length_of_relates {b : Builtin} {ts : List Term} (h : b.Relates ts) :
    ts.length = b.arity := by
  match ts with
  | [] => cases b <;> simp [Relates] at h
  | [a] => cases b <;> simp [Relates] at h
  | [a, c] => cases b <;> simp_all [Relates, arity]
  | [a, c, d] => cases b <;> simp_all [Relates, arity]
  | _ :: _ :: _ :: _ :: _ => cases b <;> simp [Relates] at h

theorem return_int {v : Option Int64} {n : Int64} (value : v = some n) :
    (do return Term.int (← v)) = some (Term.int n) := by
  rw [value]
  rfl

/-- The last argument of the arithmetic builtins is computed as they compute. -/
theorem solve?_result {b : Builtin} {a c t : Term}
    (arith : b ∈ [Builtin.add, .subtract, .multiply, .divide, .modulus])
    (h : b.Relates [a, c, t]) : b.solve? [some a, some c, none] = some t := by
  obtain ⟨x, y, z, rfl, rfl, rfl⟩ := relates_words arith h
  have value := (arithmetic?_eq_some_iff arith).2 h
  simp only [List.mem_cons, List.not_mem_nil, or_false] at arith
  rcases arith with rfl | rfl | rfl | rfl | rfl <;> exact (return_int value :)

/-- A sum, a difference or a product determines its first argument, but for a factor zero. -/
theorem solve?_left {b : Builtin} {t c d : Term} (arith : b ∈ [Builtin.add, .subtract, .multiply])
    (h : b.Relates [t, c, d]) (determined : ¬b.ZeroFactor [] [c, d]) :
    b.solve? [none, some c, some d] = some t := by
  simp only [List.mem_cons, List.not_mem_nil, or_false] at arith
  rcases arith with rfl | rfl | rfl
  · obtain ⟨x, y, z, rfl, rfl, rfl, h⟩ := h
    have value : Word.ofInt? (z.toInt - y.toInt) = some x := Word.ofInt?_eq_some_iff.2 (by omega)
    exact (return_int value :)
  · obtain ⟨x, y, z, rfl, rfl, rfl, h⟩ := h
    have value : Word.ofInt? (z.toInt + y.toInt) = some x := Word.ofInt?_eq_some_iff.2 (by omega)
    exact (return_int value :)
  · obtain ⟨x, y, z, rfl, rfl, rfl, h⟩ := h
    have nonzero : y ≠ 0 := by
      rintro rfl
      exact determined ⟨rfl, .inl ⟨rfl, rfl⟩⟩
    have value : Word.exactQuotient? z y = some x := Word.exactQuotient?_of_mul nonzero h
    exact (return_int value :)

/-- A sum, a difference or a product determines its second argument, but for a factor zero. -/
theorem solve?_right {b : Builtin} {a t d : Term} (arith : b ∈ [Builtin.add, .subtract, .multiply])
    (h : b.Relates [a, t, d]) (determined : ¬b.ZeroFactor [a] [d]) :
    b.solve? [some a, none, some d] = some t := by
  simp only [List.mem_cons, List.not_mem_nil, or_false] at arith
  rcases arith with rfl | rfl | rfl
  · obtain ⟨x, y, z, rfl, rfl, rfl, h⟩ := h
    have value : Word.ofInt? (z.toInt - x.toInt) = some y := Word.ofInt?_eq_some_iff.2 (by omega)
    exact (return_int value :)
  · obtain ⟨x, y, z, rfl, rfl, rfl, h⟩ := h
    have value : Word.ofInt? (x.toInt - z.toInt) = some y := Word.ofInt?_eq_some_iff.2 (by omega)
    exact (return_int value :)
  · obtain ⟨x, y, z, rfl, rfl, rfl, h⟩ := h
    have nonzero : x ≠ 0 := by
      rintro rfl
      exact determined ⟨rfl, .inr rfl⟩
    have value : Word.exactQuotient? z x = some y :=
      Word.exactQuotient?_of_mul nonzero ((Int.mul_comm _ _).trans h)
    exact (return_int value :)

/-- Each part of a concatenation is determined by the other two. -/
theorem solve?_concat {a c d : Term} (h : Relates .concat [a, c, d]) :
    solve? .concat [none, some c, some d] = some a ∧
    solve? .concat [some a, none, some d] = some c ∧
    solve? .concat [some a, some c, none] = some d := by
  obtain ⟨s, t, rfl, rfl, rfl⟩ := h
  have ends : t.toList.isSuffixOf? (s ++ t).toList = some s.toList := by simp
  have starts : s.toList.isPrefixOf? (s ++ t).toList = some t.toList := by simp
  refine ⟨?_, ?_, rfl⟩
  · show (do return Term.str (String.ofList (← t.toList.isSuffixOf? (s ++ t).toList))) = _
    simp only [ends, String.ofList_toList, Option.bind_eq_bind, Option.bind_some, Option.pure_def]
  · show (do return Term.str (String.ofList (← s.toList.isPrefixOf? (s ++ t).toList))) = _
    simp only [starts, String.ofList_toList, Option.bind_eq_bind, Option.bind_some, Option.pure_def]

/-- The lengths are computed. -/
theorem solve?_length {b : Builtin} {a t : Term} (len : b ∈ [Builtin.stringLength, .listLength])
    (h : b.Relates [a, t]) : b.solve? [some a, none] = some t := by
  simp only [List.mem_cons, List.not_mem_nil, or_false] at len
  rcases len with rfl | rfl
  · obtain ⟨s, n, rfl, rfl, h⟩ := h
    have value : Word.ofInt? s.length = some n := Word.ofInt?_eq_some_iff.2 h
    exact (return_int value :)
  · obtain ⟨ts, n, rfl, rfl, h⟩ := h
    have value : Word.ofInt? ts.length = some n := Word.ofInt?_eq_some_iff.2 h
    exact (return_int value :)

/-- Where a builtin can compute the argument after `pre`, it finds every value that completes its
relation, but for a product with a factor zero. -/
theorem solve?_of_relates {b : Builtin} {pre post : List Term} {t : Term}
    (bind : b.canBind pre.length = true) (h : b.Relates (pre ++ t :: post))
    (determined : ¬b.ZeroFactor pre post) :
    b.solve? (pre.map some ++ none :: post.map some) = some t := by
  have length := length_of_relates h
  have two_or_three : b.arity = 2 ∨ b.arity = 3 := by cases b <;> simp [arity]
  match pre, post with
  | [], [c] =>
    cases b with
    | equal => exact congrArg some (Eq.symm h)
    | _ => simp [canBind, arity] at bind length
  | [a], [] =>
    cases b with
    | equal => exact congrArg some h
    | stringLength => exact solve?_length (by simp) h
    | listLength => exact solve?_length (by simp) h
    | _ => simp [canBind, arity] at bind length
  | [], [c, d] =>
    cases b with
    | add => exact solve?_left (by simp) h determined
    | subtract => exact solve?_left (by simp) h determined
    | multiply => exact solve?_left (by simp) h determined
    | concat => exact (solve?_concat h).1
    | _ => simp [canBind, arity] at bind length
  | [a], [d] =>
    cases b with
    | add => exact solve?_right (by simp) h determined
    | subtract => exact solve?_right (by simp) h determined
    | multiply => exact solve?_right (by simp) h determined
    | concat => exact (solve?_concat h).2.1
    | _ => simp [canBind, arity] at bind length
  | [a, c], [] =>
    cases b with
    | add => exact solve?_result (by simp) h
    | subtract => exact solve?_result (by simp) h
    | multiply => exact solve?_result (by simp) h
    | divide => exact solve?_result (by simp) h
    | modulus => exact solve?_result (by simp) h
    | concat => exact (solve?_concat h).2.2
    | _ => simp [canBind] at bind
  | [], [] => simp at length; omega
  | [], _ :: _ :: _ :: _ => simp at length; omega
  | [_], _ :: _ :: _ => simp at length; omega
  | [_, _], _ :: _ => simp at length; omega
  | _ :: _ :: _ :: _, _ => simp at length; omega

/-- No factor is found beside a factor zero. -/
theorem solve?_of_zeroFactor {b : Builtin} {pre post : List Term}
    (h : b.ZeroFactor pre post) (length : pre.length + post.length = 2) :
    b.solve? (pre.map some ++ none :: post.map some) = none := by
  obtain ⟨rfl, ⟨rfl, zero⟩ | rfl⟩ := h
  · obtain ⟨c, d, rfl⟩ := List.length_eq_two.1 ((Nat.zero_add _).symm.trans length)
    cases zero
    show (do return Term.int (← Word.exactQuotient? (← d.int?) 0)) = _
    cases d.int? <;> simp [Word.exactQuotient?_zero]
  · obtain ⟨d, rfl⟩ := List.length_eq_one_iff.1 (Nat.add_left_cancel length)
    show (do return Term.int (← Word.exactQuotient? (← d.int?) 0)) = _
    cases d.int? <;> simp [Word.exactQuotient?_zero]

/-! ### Applying a builtin -/

theorem count_none_map_some (ts : List Term) : (ts.map some).count none = 0 := by
  simp [List.count_eq_zero]

/-- With every argument given, a builtin keeps the arguments that it relates. -/
theorem apply_bound {b : Builtin} {ts : List Term} (length : ts.length = b.arity) :
    b.apply (ts.map some) = .ok (if b.holds ts then some ts else none) := by
  have all : (ts.map some).filterMap id = ts := by simp [List.filterMap_map]
  simp only [apply, List.length_map, length, ne_eq, not_true_eq_false, if_false,
    count_none_map_some, all]

/-- With every argument given, a call succeeds where the builtin relates them; with a wrong number of
arguments it fails as it does where the relation does not hold. -/
theorem apply_given {b : Builtin} {ts : List Term} :
    (b.apply (ts.map some)).toOption.join = if b.holds ts then some ts else none := by
  by_cases length : ts.length = b.arity
  · rw [apply_bound length]
    rfl
  · have fails : ¬b.holds ts = true := fun h => length (length_of_relates ((holds_iff_relates b ts).1 h))
    have wrong : (ts.map some).length ≠ b.arity := by simpa using length
    rw [if_neg fails, apply, if_pos wrong]
    rfl

/-- With one argument missing, a builtin completes the arguments by a value that it relates, unless
a factor zero stands beside the missing factor. -/
theorem apply_missing_eq_some_iff {b : Builtin} {pre post ts : List Term}
    (bind : b.canBind pre.length = true) :
    b.apply (pre.map some ++ none :: post.map some) = .ok (some ts) ↔
      ∃ t, ts = pre ++ t :: post ∧ b.Relates ts ∧ ¬b.ZeroFactor pre post := by
  by_cases len : (pre.map some ++ none :: post.map some).length = b.arity
  swap
  · -- A call with a wrong number of arguments is an error, and such arguments are not related.
    rw [apply, if_pos len]
    constructor
    · intro h
      cases h
    · rintro ⟨t, rfl, relates, -⟩
      exact absurd (length_of_relates relates) (by simpa using len)
  have one : (pre.map some ++ none :: post.map some).count none = 1 := by
    rw [List.count_append, List.count_cons_self, count_none_map_some, count_none_map_some]
  have fill (t : Term) :
      (pre.map some ++ none :: post.map some).map (fun a => a.getD t) = pre ++ t :: post := by
    simp [Function.comp_def]
  simp only [apply, len, ne_eq, not_true_eq_false, if_false, one, fill, Except.ok.injEq]
  constructor
  · intro h
    cases hs : b.solve? (pre.map some ++ none :: post.map some) with
    | none => simp [hs] at h
    | some t =>
      simp only [hs, Option.bind_eq_bind, Option.bind_some] at h
      split at h
      · next holds =>
        cases h
        refine ⟨t, rfl, (holds_iff_relates b _).1 holds, fun zero => ?_⟩
        have two : pre.length + post.length = 2 := by
          rw [zero.1] at len
          simp only [List.length_append, List.length_map, List.length_cons, arity] at len
          omega
        rw [solve?_of_zeroFactor zero two] at hs
        cases hs
      · cases h
  · rintro ⟨t, rfl, relates, determined⟩
    rw [solve?_of_relates bind relates determined]
    simp [(holds_iff_relates b _).2 relates]

end Builtin

end Datalog
