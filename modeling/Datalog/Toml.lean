/-!
# TOML values and the growth of tables

The tree of a TOML document. Every table remembers what brought it about, since that decides what may
still be added to it: a header may open a table once, and also one that so far was only passed on the
way to another; a dotted key may add to tables that dotted keys made; a table written in braces is
complete. No key gets a second value.
-/

namespace Datalog

/-- What brought a table about. -/
inductive Toml.Origin where
  /-- A header of its own. -/
  | header
  /-- The header of a table below it. -/
  | passed
  /-- A dotted key. -/
  | dotted
  /-- Braces. -/
  | braces
  deriving DecidableEq, Inhabited

/-- The tree of a TOML document. Of fractions and dates only their kind is kept. -/
inductive Toml where
  | bool (b : Bool)
  | int (n : Int)
  | fraction
  | date
  | str (s : String)
  | arr (items : List Toml)
  /-- The tables of headers in double brackets. -/
  | tables (items : List Toml)
  | table (origin : Toml.Origin) (members : List (String × Toml))
  deriving Inhabited

namespace Toml

/-- The members of a table. -/
abbrev Members := List (String × Toml)

/-- Changes the member with a key, or adds one at the end. -/
def alter (key : String) (change : Option Toml → Option Toml) : Members → Option Members
  | [] => do return [(key, ← change none)]
  | (k, v) :: ms =>
    if k = key then do return (k, ← change (some v)) :: ms
    else do return (k, v) :: (← alter key change ms)

/-- A change of the members of a table. -/
abbrev Change := Origin → Members → Option Members

/-- Makes a change within a table that is entered, which for a list of tables is its last. -/
def inside (enters : Origin → Bool) (change : Change) : Toml → Option Toml
  | .table o ms => if enters o then do return .table o (← change o ms) else none
  | .tables ts =>
    match ts.getLast? with
    | some (.table o ms) => do return .tables (ts.dropLast ++ [.table o (← change o ms)])
    | _ => none
  | _ => none

/-- Makes a change in the table at the end of a path. Tables that are missing on the way are made. -/
def within (made : Origin) (enters : Origin → Bool) (change : Change) : List String → Change
  | [], o, ms => change o ms
  | key :: path, _, ms => alter key (fun
    | none => do return .table made (← within made enters change path made [])
    | some v => inside enters (within made enters change path) v) ms

/-- Gives a key its value. -/
def put (key : String) (value : Toml) (ms : Members) : Option Members :=
  alter key (fun
    | none => some value
    | some _ => none) ms

/-- Gives a dotted key its value, from a table on. -/
def define (path : List String) (key : String) (value : Toml) : Change :=
  within .dotted (fun o => o = .passed || o = .dotted) (fun o ms =>
    if path ≠ [] && o ≠ .dotted then none else put key value ms) path

/-- Makes a change in the table that a header names. -/
def atHeader (path : List String) (change : Change) (root : Members) : Option Members :=
  within .passed (· ≠ .braces) change path .header root

/-- Opens the table of a header. -/
def openTable (path : List String) (key : String) (root : Members) : Option Members :=
  atHeader path (fun _ ms => alter key (fun
    | none => some (.table .header [])
    | some (.table .passed ms) => some (.table .header ms)
    | some _ => none) ms) root

/-- Opens a further table of a header in double brackets. -/
def openItem (path : List String) (key : String) (root : Members) : Option Members :=
  atHeader path (fun _ ms => alter key (fun
    | none => some (.tables [.table .header []])
    | some (.tables ts) => some (.tables (ts ++ [.table .header []]))
    | some _ => none) ms) root

end Toml

end Datalog
