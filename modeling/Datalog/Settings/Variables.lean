import Datalog.Data.SortedMap
import Datalog.Settings.Tree
import Datalog.Text.Blank
import Datalog.Text.Bytes
import Datalog.Text.Decimal
import Datalog.Text.Numeral
import Datalog.Text.Split
import Datalog.Toml.Quoted

/-!
# Settings in variables

A variable whose name starts with that of the application gives a setting. Two underscores in the rest
of its name lead into a section, and letter case does not matter. Its value is read as a truth value, a
number, a quoted text, a list in brackets or a table in braces; any other value is a text as it stands.
-/

namespace Datalog

/-- The variables of the surroundings of a program. -/
abbrev Environment := SortedMap String String

namespace Environment

/-! ### Values -/

/-- Blanks around a value. -/
def isBlank (c : Char) : Bool := c == ' ' || c == '\t' || c == '\n' || c == '\r' || c == '\x0c'

/-- The characters that end a bare value. -/
def isSeparator (c : Char) : Bool :=
  c == ',' || c == '[' || c == ']' || c == '\x7b' || c == '\x7d'

/-- The characters of keys that stand without quotes. -/
def isKeyChar (c : Char) : Bool := c.isAlphanum || c == '_' || c == '-'

/-- Whether a text is a number with a decimal point. -/
def isFraction (cs : List Char) : Bool :=
  (Decimal.Numeral.split? (Decimal.unsigned cs)).any fun n => n.fraction.isSome && n.isDecimal

/-- The integer of 64 bits, without a sign or with one, that a text denotes. -/
def integer? (cs : List Char) : Option Int := do
  let n ← Decimal.readSigned? cs
  if Int64.minValue.toInt ≤ n && n < UInt64.size then some n else none

/-- The value of a bare word. -/
def ofWord (cs : List Char) : SettingTree :=
  let cs := Text.trim cs
  if isFraction cs then .fraction
  else
    match integer? cs with
    | some n => .int n
    | none => .text (String.ofList cs)

/-- Whether a character stands for itself in double quotes. -/
def isPlain (c : Char) : Bool := Toml.isPlain c && c ≠ '"' && c ≠ '\\'

/-- A text in double quotes. Of the characters before its first escape, only as many bytes are kept as
there are characters. -/
def quoted : Scan String := do
  Scan.char '"'
  let plain ← Scan.takeWhile isPlain
  match ← Scan.peek? with
  | some '\\' => do
    let kept ← Scan.ofOption (Text.takeBytes? plain.length plain)
    return String.ofList (kept ++ (← Scan.bounded (Toml.lineRest '"')))
  | _ => do
    Scan.char '"'
    return String.ofList plain

/-- One character in single quotes. -/
def quotedChar : Scan String := do
  Scan.char '\''
  let c ← Scan.next
  Scan.char '\''
  return String.ofList [c]

/-- The entries of a list or a table, after the opening sign; a comma may follow the last. -/
def entries {α : Type} (entry : Scan α) (close : Char) : Nat → Scan (List α)
  | 0 => failure
  | n + 1 => do
    if ← Scan.accept [close] then return []
    let e ← entry
    if ← Scan.accept [','] then return e :: (← entries entry close n)
    Scan.char close
    return [e]

/-- A scan with the blanks around it. -/
def surrounded {α : Type} (s : Scan α) : Scan α := do
  Scan.skipWhile isBlank
  let a ← s
  Scan.skipWhile isBlank
  return a

/-- A key with its value. -/
def member (value : Scan SettingTree) : Scan (String × SettingTree) := do
  let key ← surrounded do
    match ← Scan.peek? with
    | some '"' => quoted
    | _ => return String.ofList (← Scan.takeSome isKeyChar)
  Scan.char '='
  return (key, ← value)

/-- A value that nests fewer containers than the given number. -/
def value : Nat → Scan SettingTree
  | 0 => failure
  | n + 1 => surrounded do
    if ← Scan.accept "true".toList then return .bool true
    if ← Scan.accept "false".toList then return .bool false
    match ← Scan.peek? with
    | some '[' =>
      Scan.char '['
      return .list (← Scan.bounded (entries (value n) ']'))
    | some '\x7b' =>
      Scan.char '\x7b'
      return .table (← Scan.bounded (entries (member (value n)) '\x7d'))
    | some '"' => return .text (← quoted)
    | some '\'' => return .text (← quotedChar)
    | _ => return ofWord (← Scan.takeWhile fun c => !isSeparator c)

/-- The tree of the value of a variable. -/
def parseValue (s : String) : SettingTree := ((Scan.bounded value).whole? s.toList).getD (.text s)

/-! ### Names -/

/-- A text with two underscores replaced by a point, from the left. -/
def dotted : List Char → List Char
  | '_' :: '_' :: cs => '.' :: dotted cs
  | c :: cs => c :: dotted cs
  | [] => []

/-- The path of the setting that a variable of an application gives. -/
def path? (application name : String) : Option (List String) := do
  let low := fun (s : String) => s.toList.map Char.toLower
  let rest ← (low application ++ ['_']).isPrefixOf? (low name)
  let parts := Text.splitOn '.' (Text.trim (dotted rest))
  if parts.any (· = []) then none else some (parts.map String.ofList)

/-- The tree with one value at the end of a path. -/
def nest : List String → SettingTree → SettingTree
  | [], t => t
  | key :: path, t => .table [(key, nest path t)]

/-- The settings of an application that variables give. -/
def settings (env : Environment) (application : String) : SettingTree.Members :=
  env.toList.foldl (fun ms (name, s) =>
    match path? application name with
    | some (key :: path) => SettingTree.overlayMembers ms [(key, nest path (parseValue s))]
    | _ => ms) []

end Environment

end Datalog
