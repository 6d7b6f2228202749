import Datalog.Json
import Datalog.Toml

/-!
# Trees of settings

Settings come from documents of several kinds and from variables. Each of them is first brought into
one form, a tree; the trees are then laid over each other, where a later one wins except that tables
are merged.
-/

namespace Datalog

/-- Values that settings may be given. No setting is a fraction, so its value does not matter. -/
inductive SettingTree where
  | nothing
  | bool (b : Bool)
  | int (n : Int)
  | fraction
  | text (s : String)
  | list (items : List SettingTree)
  | table (members : List (String × SettingTree))
  deriving Inhabited

namespace SettingTree

/-- The members of a table. -/
abbrev Members := List (String × SettingTree)

/-- The last member with a key. -/
def find? (key : String) (ms : Members) : Option SettingTree :=
  ((ms.filter fun m => m.1 = key).getLast?).map Prod.snd

mutual

/-- Lays a tree over another. -/
def overlay (lower : SettingTree) : SettingTree → SettingTree
  | .table ms =>
    match lower with
    | .table ls => .table (overlayMembers ls ms)
    | _ => .table ms
  | .nothing => .nothing
  | .bool b => .bool b
  | .int n => .int n
  | .fraction => .fraction
  | .text s => .text s
  | .list ts => .list ts

/-- Lays members over those of another table, one after the other. -/
def overlayMembers (lower : Members) : Members → Members
  | [] => lower
  | (key, t) :: ms =>
    let t := match find? key lower with
      | some l => overlay l t
      | none => t
    overlayMembers ((lower.filter fun m => m.1 ≠ key) ++ [(key, t)]) ms

end

/-- The tree of several layers, of which later ones lie above earlier ones. -/
def ofLayers (layers : List Members) : SettingTree := .table (layers.foldl overlayMembers [])

mutual

/-- The tree of a JSON document, if all its texts are texts. -/
def ofJson? : Json → Option SettingTree
  | .null => some .nothing
  | .bool b => some (.bool b)
  | .num cs =>
    match (Json.num cs).integer? with
    | some n => some (.int n)
    | none => some .fraction
  | .str s => some (.text s)
  | .garbled => none
  | .arr js => (ofItems? js).map .list
  | .obj ms => (ofMembers? ms).map .table

/-- The trees of the items of an array. -/
def ofItems? : List Json → Option (List SettingTree)
  | [] => some []
  | j :: js => do return (← ofJson? j) :: (← ofItems? js)

/-- The trees of the members of an object. -/
def ofMembers? : List (String × Json) → Option Members
  | [] => some []
  | (k, j) :: ms => do return (k, ← ofJson? j) :: (← ofMembers? ms)

end

mutual

/-- The tree of a TOML value. A date has parts, none of which is a setting. -/
def ofToml : Toml → SettingTree
  | .bool b => .bool b
  | .int n => .int n
  | .fraction => .fraction
  | .date => .table []
  | .str s => .text s
  | .arr ts => .list (ofTomlItems ts)
  | .tables ts => .list (ofTomlItems ts)
  | .table _ ms => .table (ofTomlMembers ms)

/-- The trees of TOML values. -/
def ofTomlItems : List Toml → List SettingTree
  | [] => []
  | t :: ts => ofToml t :: ofTomlItems ts

/-- The trees of the members of a TOML table. -/
def ofTomlMembers : List (String × Toml) → Members
  | [] => []
  | (k, t) :: ms => (k, ofToml t) :: ofTomlMembers ms

end

end SettingTree

end Datalog
