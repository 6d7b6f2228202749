import Datalog.Storage.Partition
import Datalog.Text.Bytes

/-!
# The partition table

The entries of a partition map as bytes, one record after the other: the length of the symbol in
bytes as a 64-bit number, the symbol, identifier and location with 32 bits each, and the count with
64 bits. Numbers have their lowest byte first, negative ones in two's complement.
-/

namespace Datalog.PartitionTable

/-- The lowest `k` bytes of a number, lowest first. -/
def lowBytes : Nat → Nat → List UInt8
  | 0, _ => []
  | k + 1, n => UInt8.ofNat n :: lowBytes k (n / 256)

/-- The number with the given bytes, lowest first. -/
def ofLowBytes : List UInt8 → Nat
  | [] => 0
  | b :: bs => b.toNat + 256 * ofLowBytes bs

/-- The record of an entry. -/
def writeEntry (e : PartitionEntry) : List UInt8 :=
  let symbol := Text.bytes e.symbol
  lowBytes 8 symbol.length ++ symbol ++ lowBytes 4 e.id.toUInt32.toNat
    ++ lowBytes 4 e.location.toUInt32.toNat ++ lowBytes 8 e.count.toUInt64.toNat

/-- The records of entries. -/
def write (es : List PartitionEntry) : List UInt8 := es.flatMap writeEntry

/-- The first `k` bytes and the rest, if there are that many. -/
def take? (k : Nat) (bs : List UInt8) : Option (List UInt8 × List UInt8) :=
  if bs.length < k then none else some (bs.splitAt k)

/-- The first `k` bytes as a number, and the rest. -/
def takeNat? (k : Nat) (bs : List UInt8) : Option (Nat × List UInt8) := do
  let (front, rest) ← take? k bs
  return (ofLowBytes front, rest)

/-- Reads one record. -/
def readEntry? (bs : List UInt8) : Option (PartitionEntry × List UInt8) := do
  let (length, bs) ← takeNat? 8 bs
  let (symbol, bs) ← take? length bs
  let symbol ← Text.ofBytes? symbol
  let (id, bs) ← takeNat? 4 bs
  let (location, bs) ← takeNat? 4 bs
  let (count, bs) ← takeNat? 8 bs
  return (⟨symbol, (UInt32.ofNat id).toInt32, (UInt32.ofNat location).toInt32,
    (UInt64.ofNat count).toInt64⟩, bs)

/-- Reads at most `n` records up to the end of the bytes. -/
def readUpTo? : Nat → List UInt8 → Option (List PartitionEntry)
  | _, [] => some []
  | 0, _ :: _ => none
  | n + 1, bs => do
    let (e, bs) ← readEntry? bs
    return e :: (← readUpTo? n bs)

/-- Reads records up to the end of the bytes. There are fewer records than bytes. -/
def read? (bs : List UInt8) : Option (List PartitionEntry) := readUpTo? bs.length bs

end Datalog.PartitionTable
