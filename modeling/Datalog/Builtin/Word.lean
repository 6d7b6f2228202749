/-!
# Exact arithmetic on 64-bit words

The integer operations compute in the unbounded integers and answer only when the result is a
64-bit word. Division truncates toward zero.
-/

namespace Datalog.Word

/-- The word that denotes the integer `z`, if there is one. -/
def ofInt? (z : Int) : Option Int64 :=
  if (Int64.ofInt z).toInt = z then some (Int64.ofInt z) else none

/-- The quotient truncated toward zero. -/
def quotient? (a b : Int64) : Option Int64 :=
  if b = 0 then none else ofInt? (a.toInt.tdiv b.toInt)

/-- The remainder of the truncated division, where that division has a quotient. -/
def remainder? (a b : Int64) : Option Int64 :=
  if (quotient? a b).isSome then ofInt? (a.toInt.tmod b.toInt) else none

/-- The quotient of a division that leaves no remainder. -/
def exactQuotient? (a b : Int64) : Option Int64 :=
  if remainder? a b = some 0 then quotient? a b else none

theorem ofInt?_eq_some_iff {z : Int} {w : Int64} : ofInt? z = some w ↔ w.toInt = z := by
  unfold ofInt?
  constructor
  · intro h
    split at h
    · next hz => cases h; exact hz
    · cases h
  · rintro rfl
    simp

end Datalog.Word
