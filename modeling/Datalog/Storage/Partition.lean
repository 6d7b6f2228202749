/-!
# Partitions

Each symbol has an entry with the number of facts imported for it. Symbols share the partition 0
until that number reaches the block size; from then on a symbol has a partition of its own, which it
keeps.
-/

namespace Datalog

/-- What is known of one symbol. -/
structure PartitionEntry where
  symbol : String
  id : Int32
  location : Int32
  count : Int64
  deriving DecidableEq, Inhabited

/-- A symbol that moves to a partition of its own. -/
structure Relocation where
  symbol : String
  source : Int32
  target : Int32
  deriving DecidableEq

/-- The entries in order of first mention, and the count from which a symbol has its own partition. -/
structure PartitionMap where
  blockSize : Int64
  entries : List PartitionEntry := []
  deriving DecidableEq, Inhabited

namespace PartitionMap

/-- The shared partition. -/
def sharedLocation : Int32 := 0

/-- The greatest of a list, if there is any. -/
def greatest? : List Int32 → Option Int32
  | [] => none
  | a :: l =>
    match greatest? l with
    | some b => some (if a < b then b else a)
    | none => some a

/-- The entry of a symbol. -/
def find? (m : PartitionMap) (symbol : String) : Option PartitionEntry :=
  m.entries.find? fun e => e.symbol = symbol

/-- The partition of a symbol; one without an entry shares. -/
def locationOf (m : PartitionMap) (symbol : String) : Int32 :=
  match m.find? symbol with
  | some e => e.location
  | none => sharedLocation

/-- The first partition after those in use. -/
def nextLocation (m : PartitionMap) : Int32 :=
  (greatest? (m.entries.map PartitionEntry.location)).getD sharedLocation + 1

/-- The first identifier after those in use. -/
def nextId (m : PartitionMap) : Int32 :=
  match greatest? (m.entries.map PartitionEntry.id) with
  | some n => n + 1
  | none => 0

/-- Whether more facts take an entry out of the shared partition. -/
def promotes (m : PartitionMap) (count : Int64) (e : PartitionEntry) : Bool :=
  e.location = sharedLocation && m.blockSize ≤ e.count + count

/-- An entry with more facts, in the next partition if they take it there. -/
def grow (m : PartitionMap) (count : Int64) (e : PartitionEntry) : PartitionEntry :=
  { e with
    count := e.count + count
    location := if m.promotes count e then m.nextLocation else e.location }

/-- The entry that a symbol starts with. -/
def freshEntry (m : PartitionMap) (symbol : String) : PartitionEntry := ⟨symbol, m.nextId, sharedLocation, 0⟩

/-- Replaces the first entry of a symbol. -/
def updateFirst (symbol : String) (f : PartitionEntry → PartitionEntry) :
    List PartitionEntry → List PartitionEntry
  | [] => []
  | e :: es => if e.symbol = symbol then f e :: es else e :: updateFirst symbol f es

/-- Accounts for facts of one symbol. -/
def addOne (m : PartitionMap) (symbol : String) (count : Int64) : PartitionMap :=
  match m.find? symbol with
  | some _ => { m with entries := updateFirst symbol (m.grow count) m.entries }
  | none => { m with entries := m.entries ++ [m.grow count (m.freshEntry symbol)] }

/-- The move that facts of one symbol bring about. -/
def relocation? (m : PartitionMap) (symbol : String) (count : Int64) : Option Relocation :=
  let e := (m.find? symbol).getD (m.freshEntry symbol)
  if m.promotes count e then some ⟨symbol, e.location, m.nextLocation⟩ else none

/-- Accounts for a batch of facts by symbol. The answer lists the symbols that moved, in order. -/
def add : PartitionMap → List (String × Int64) → PartitionMap × List Relocation
  | m, [] => (m, [])
  | m, (symbol, count) :: counts =>
    let (last, moved) := (m.addOne symbol count).add counts
    (last, (m.relocation? symbol count).toList ++ moved)

end PartitionMap

end Datalog
