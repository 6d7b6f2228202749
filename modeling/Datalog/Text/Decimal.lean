/-!
# Decimal numerals

Reading numerals: one or more digits, leading zeros allowed, after an optional sign where the
reader takes one. Writing is `Nat.repr`, and what it writes reads back (`readNat?_toDigits`).
-/

namespace Datalog.Decimal

/-- The number that a non-empty run of decimal digits denotes. -/
def readNat? (cs : List Char) : Option Nat :=
  if cs ≠ [] ∧ cs.all Char.isDigit then some (Nat.ofDigitChars 10 cs 0) else none

/-- A numeral with an optional plus sign. -/
def readUnsigned? : List Char → Option Nat
  | '+' :: cs => readNat? cs
  | cs => readNat? cs

/-- A numeral with an optional sign. -/
def readSigned? : List Char → Option Int
  | '-' :: cs => (readNat? cs).map fun n => -(n : Int)
  | cs => (readUnsigned? cs).map Int.ofNat

theorem readNat?_toDigits (n : Nat) : readNat? (Nat.toDigits 10 n) = some n := by
  have h : (Nat.toDigits 10 n).all Char.isDigit :=
    List.all_eq_true.2 fun c hc => Nat.isDigit_of_mem_toDigits (by decide) (by decide) hc
  rw [readNat?, if_pos ⟨Nat.toDigits_ne_nil, h⟩, Nat.ofDigitChars_toDigits (by decide) (by decide)]

end Datalog.Decimal
