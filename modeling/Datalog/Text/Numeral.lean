import Datalog.Text.Decimal
import Datalog.Text.Split

/-!
# Numerals with a point and an exponent

A numeral is cut at the mark of its exponent and at its decimal point; which digits may stand where
is left to its reader. A number of 64 bits in binary floating point holds only so much: a greater one
rounds to infinity.
-/

namespace Datalog.Decimal

/-- The parts of a numeral without a sign. The fraction and the exponent are missing if their mark is. -/
structure Numeral where
  whole : List Char
  fraction : Option (List Char)
  exponent : Option (List Char)
  deriving DecidableEq, Inhabited

/-- A text without its sign. -/
def unsigned : List Char → List Char
  | '+' :: cs => cs
  | '-' :: cs => cs
  | cs => cs

namespace Numeral

/-- Whether a character marks an exponent. -/
def isMark (c : Char) : Bool := c == 'e' || c == 'E'

/-- Cuts a text into the parts of a numeral. It may have one decimal point. -/
def split? (cs : List Char) : Option Numeral :=
  let exponent := match cs.dropWhile fun c => !isMark c with
    | [] => none
    | _ :: e => some e
  match Text.splitOn '.' (cs.takeWhile fun c => !isMark c) with
  | [whole] => some ⟨whole, none, exponent⟩
  | [whole, fraction] => some ⟨whole, some fraction, exponent⟩
  | _ => none

/-- Whether the parts hold digits only: one or more on either side of the point, and an exponent that
may have a sign. -/
def isDecimal (n : Numeral) : Bool :=
  (readNat? (n.whole ++ n.fraction.getD [])).isSome && n.exponent.all fun e => (readSigned? e).isSome

end Numeral

/-- The greatest number of digits before the point of a finite number. -/
def maxDigits : Nat := 309

/-- The least natural number that rounds to infinity: half a step of 53 bits above the greatest finite
number. -/
def infinityBound : Nat := (1 <<< 1024) - (1 <<< 970)

/-- Whether the number `0.d₁d₂…` times ten to the power `places` rounds to infinity. -/
def areInfinite (digits : List Char) (places : Int) : Bool :=
  let zeros := (digits.takeWhile (· = '0')).length
  let digits := digits.dropWhile (· = '0')
  let places := places - zeros
  if digits = [] || places < maxDigits then false
  else if maxDigits < places then true
  else
    let n := Nat.ofDigitChars 10 digits 0
    infinityBound * Nat.pow 10 (digits.length - maxDigits) ≤ n * Nat.pow 10 (maxDigits - digits.length)

/-- Whether the number of a numeral rounds to infinity. -/
def Numeral.roundsToInfinity (n : Numeral) : Bool :=
  let exponent := (n.exponent.bind readSigned?).getD 0
  areInfinite (n.whole ++ n.fraction.getD []) (n.whole.length + exponent)

end Datalog.Decimal
