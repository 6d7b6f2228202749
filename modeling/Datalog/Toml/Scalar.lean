import Datalog.Text.Decimal
import Datalog.Text.Hexadecimal
import Datalog.Text.Numeral
import Datalog.Text.Split
import Datalog.Toml

/-!
# Numbers, dates and words

The values that stand without quotes. Underscores may stand between digits, a decimal number has no
leading zero, an integer has to fit 64 bits, and a positive fraction has to be finite. A date may be followed by a time of day, and that by
its distance from universal time.
-/

namespace Datalog.Toml

/-- The characters of values that stand without quotes. -/
def isWordChar (c : Char) : Bool :=
  c.isAlphanum || c == '+' || c == '-' || c == '_' || c == '.' || c == ':'

/-- The digits of a number without the underscores between them. -/
def digits? (isDigit : Char → Bool) (cs : List Char) : Option (List Char) :=
  let groups := Text.splitOn '_' cs
  if groups.all fun g => g ≠ [] && g.all isDigit then some groups.flatten else none

/-- The digits of a decimal number, which has no leading zero. -/
def wholeDigits? (cs : List Char) : Option (List Char) := do
  match ← digits? Char.isDigit cs with
  | '0' :: _ :: _ => none
  | ds => some ds

/-- The value of digits in some base. -/
def ofDigits? (base : Nat) (cs : List Char) : Option Nat := do
  let isDigit (c : Char) : Bool := (Text.hexValue? c).any (· < base)
  return (← digits? isDigit cs).foldl (fun n c => base * n + (Text.hexValue? c).getD 0) 0

/-- The integer that a word denotes. -/
def readInteger? : List Char → Option Int
  | '0' :: 'x' :: cs => (ofDigits? 16 cs).map Int.ofNat
  | '0' :: 'o' :: cs => (ofDigits? 8 cs).map Int.ofNat
  | '0' :: 'b' :: cs => (ofDigits? 2 cs).map Int.ofNat
  | cs => do
    let n ← Decimal.readNat? (← wholeDigits? (Decimal.unsigned cs))
    return if cs.head? = some '-' then -(n : Int) else n

/-- The integer of 64 bits that a word denotes. -/
def integer? (cs : List Char) : Option Int := do
  let n ← readInteger? cs
  if Int64.minValue.toInt ≤ n && n ≤ Int64.maxValue.toInt then some n else none

/-- The digits of an exponent, after a minus sign if it has one. -/
def exponentDigits? (cs : List Char) : Option (List Char) :=
  (digits? Char.isDigit (Decimal.unsigned cs)).map fun ds => if cs.head? = some '-' then '-' :: ds else ds

/-- The parts of a number without the underscores between digits. -/
def plainNumeral? (n : Decimal.Numeral) : Option Decimal.Numeral := do
  return ⟨← wholeDigits? n.whole, ← n.fraction.mapM (digits? Char.isDigit), ← n.exponent.mapM exponentDigits?⟩

/-- Whether a word without a sign is a number with a fraction or an exponent, and finite if it is
`positive`. -/
def isDecimalFraction (positive : Bool) (cs : List Char) : Bool :=
  ((Decimal.Numeral.split? cs).bind plainNumeral?).any fun n =>
    (n.fraction.isSome || n.exponent.isSome) && !(positive && n.roundsToInfinity)

/-- Whether a word is a number with a fraction or an exponent, infinite, or no number. -/
def isFraction (cs : List Char) : Bool :=
  let number := Decimal.unsigned cs
  number = "inf".toList || number = "nan".toList || isDecimalFraction (cs.head? ≠ some '-') number

/-- The number that a fixed number of decimal digits denote. -/
def fixed? (width : Nat) (cs : List Char) : Option Nat :=
  if cs.length = width then Decimal.readNat? cs else none

/-- Whether a fixed number of decimal digits denote a number up to a limit. -/
def isUpTo (width limit : Nat) (cs : List Char) : Bool := (fixed? width cs).any (· ≤ limit)

/-- The number of days in a month. -/
def daysIn (year month : Nat) : Nat :=
  if month = 2 then if year % 4 = 0 && (year % 100 ≠ 0 || year % 400 = 0) then 29 else 28
  else if month = 4 || month = 6 || month = 9 || month = 11 then 30
  else 31

/-- Whether a word is a day of the calendar. -/
def isDay (cs : List Char) : Bool :=
  match (Text.splitOn '-' cs) with
  | [y, m, d] => Option.isSome do
    let year ← fixed? 4 y
    let month ← fixed? 2 m
    let day ← fixed? 2 d
    if 1 ≤ month && month ≤ 12 && 1 ≤ day && day ≤ daysIn year month then some () else none
  | _ => false

/-- Whether a word is the seconds of a time of day, with or without a fraction. -/
def isSeconds (cs : List Char) : Bool :=
  match Text.splitOn '.' cs with
  | [s] => isUpTo 2 60 s
  | [s, part] => isUpTo 2 60 s && part ≠ [] && part.all Char.isDigit
  | _ => false

/-- Whether a word is a time of day. -/
def isTime (cs : List Char) : Bool :=
  match Text.splitOn ':' cs with
  | [h, m, s] => isUpTo 2 23 h && isUpTo 2 59 m && isSeconds s
  | _ => false

/-- Whether a word is a distance from universal time. -/
def isOffset : List Char → Bool
  | ['Z'] => true
  | ['z'] => true
  | c :: cs =>
    (c == '+' || c == '-') &&
      match Text.splitOn ':' cs with
      | [h, m] => isUpTo 2 23 h && isUpTo 2 59 m
      | _ => false
  | [] => false

/-- Whether a word is a time of day, with or without a distance from universal time. -/
def isTimeOfDay (cs : List Char) : Bool :=
  let inTime (c : Char) : Bool := c.isDigit || c == ':' || c == '.'
  let offset := cs.dropWhile inTime
  isTime (cs.takeWhile inTime) && (offset = [] || isOffset offset)

/-- Whether a word is a day with a time of day. -/
def isDayAndTime (cs : List Char) : Bool :=
  isDay (cs.take 10) &&
    match cs.drop 10 with
    | c :: time => (c == 'T' || c == 't') && isTimeOfDay time
    | [] => false

/-- The value of a word. -/
def ofWord? (cs : List Char) : Option Toml :=
  if cs = "true".toList then some (.bool true)
  else if cs = "false".toList then some (.bool false)
  else if isDay cs || isTime cs || isDayAndTime cs then some .date
  else if isFraction cs then some .fraction
  else (integer? cs).map .int

end Datalog.Toml
