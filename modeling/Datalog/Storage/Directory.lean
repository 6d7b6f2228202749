import Datalog.Context
import Datalog.Facts
import Datalog.Storage.Disk
import Datalog.Storage.FactRecord
import Datalog.Storage.Layout
import Datalog.Storage.PartitionTable
import Datalog.Text.Blank

/-!
# Stores in a project directory

A directory store holds all facts in memory and, for each predicate, in a file of the partition of its
symbol. Inserting changes memory first: when the file cannot be written the tuples stay, and the next
insertion that adds a tuple writes them too. Only imports count toward partitions; a symbol that gets a
partition of its own takes its files along.
-/

namespace Datalog

namespace PartitionMap

/-- Reads the entries of the partition table; without a table there are none. -/
def readTable (l : Layout) : Disk (List PartitionEntry) := do
  match ← Disk.query (·.read l.partitionTable) with
  | .error .notFound => return []
  | .error _ => throw .file
  | .ok bytes =>
    match PartitionTable.read? bytes with
    | some es => return es
    | none => throw .partitions

/-- Writes the partition table. -/
def save (m : PartitionMap) (l : Layout) : Disk Unit :=
  Disk.writeStaged l.stagingDir l.stagedTable l.partitionTable (PartitionTable.write m.entries)

end PartitionMap

namespace FactFile

/-- A line without the carriage return at its end. -/
def dropReturn (line : List UInt8) : List UInt8 := if line.getLast? = some 13 then line.dropLast else line

/-- The lines of a file: a line break ends a line, together with a carriage return before it. What
follows the last line break is a line if it is anything. -/
def lines (bytes : List UInt8) : List (List UInt8) :=
  let pieces := Text.splitOn 10 bytes
  pieces.dropLast.map dropReturn ++ (pieces.getLast?.toList.filter (· ≠ []))

/-- The facts on the lines of a file of a predicate; blank lines count for nothing. -/
def readLines (p : Predicate) : List (List UInt8) → Except StoreError (List Tuple)
  | [] => .ok []
  | line :: rest =>
    match Text.ofBytes? line with
    | none => .error .file
    | some s =>
      if Text.isBlank s then readLines p rest
      else do
        let t ← FactRecord.decode p s
        return t :: (← readLines p rest)

/-- The facts in a file of a predicate. -/
def read (p : Predicate) (bytes : List UInt8) : Except StoreError Relation := do
  return SortedSet.ofList (← readLines p (lines bytes))

/-- The file of a relation: one record a line. -/
def write (r : Relation) : List UInt8 :=
  r.toList.flatMap fun t => Text.bytes (FactRecord.encode t ++ "\n")

end FactFile

/-- A store in a project directory. -/
structure Directory where
  layout : Layout
  partitions : PartitionMap
  facts : Facts
  files : FileTree

/-- An action on a directory store, which keeps what it did when it fails. -/
abbrev DirectoryM := ExceptT StoreError (StateM Directory)

namespace Directory

/-- Runs an action on the files of a store. -/
def onDisk {α : Type} (act : Disk α) : DirectoryM α := fun d =>
  let (result, files) := act d.files
  (result, { d with files })

/-- Reads one fact file into facts. -/
def loadFile (dir : Path) (facts : Facts) (name : String) : Disk Facts := do
  match Layout.parseFactFileName? name with
  | none => return facts
  | some p =>
    match ← Disk.query (·.read (dir ++ [name])) with
    | .error _ => throw .file
    | .ok bytes =>
      match FactFile.read p bytes with
      | .error e => throw e
      | .ok r => return facts.add p r

/-- The names within a directory, with what they are. -/
def entries (dir : Path) : Disk (List (String × Node)) := do
  match ← Disk.query (·.list dir) with
  | .error _ => throw .file
  | .ok es => return es

/-- Whether a name is that of a partition: a number of 32 bits, with a sign or without. -/
def isPartitionName (name : String) : Bool :=
  (Decimal.readSigned? name.toList).any fun n => (Int32.ofInt n).toInt = n

/-- Reads the fact files of one entry of the directory of facts. -/
def loadPartition (l : Layout) (facts : Facts) (entry : String × Node) : Disk Facts := do
  if isPartitionName entry.1 && entry.2 = .dir then
    let dir := l.factsRoot ++ [entry.1]
    (← entries dir).foldlM (fun facts e => loadFile dir facts e.1) facts
  else return facts

/-- Reads all facts of a project, creating its directory of facts if that is missing. -/
def load (l : Layout) (blockSize : Int64) : Disk (PartitionMap × Facts) := do
  Disk.makeDirs l.factsRoot
  let es ← PartitionMap.readTable l
  let facts ← (← entries l.factsRoot).foldlM (loadPartition l) ∅
  return (⟨blockSize, es⟩, facts)

/-- Opens the store of a project. The tree is returned also when that fails. -/
def openFrom (l : Layout) (blockSize : Int64) (files : FileTree) : Except StoreError Directory × FileTree :=
  match load l blockSize files with
  | (.ok (partitions, facts), files) => (.ok ⟨l, partitions, facts, files⟩, files)
  | (.error e, files) => (.error e, files)

/-- The file with the facts of a predicate. -/
def factFile (d : Directory) (p : Predicate) : Path :=
  d.layout.factFile (d.partitions.locationOf p.symbol) p

/-- Writes the file of a predicate. -/
def persist (p : Predicate) : DirectoryM Unit := do
  let d ← get
  onDisk (Disk.writeStaged d.layout.stagingDir (d.layout.stagingFile (Layout.factFileName p))
    (d.factFile p) (FactFile.write (d.facts.scan p)))

/-- Adds tuples to a predicate and writes its file if any of them is new. The answer holds the new
ones. -/
def insert (p : Predicate) (r : Relation) : DirectoryM Relation := do
  let d ← get
  let added := r.diff (d.facts.scan p)
  set { d with facts := d.facts.add p r }
  if !added.isEmpty then persist p
  return added

/-- Moves the file of one predicate to another partition, if there is a file. -/
def moveFile (move : Relocation) (p : Predicate) : DirectoryM Unit := do
  let d ← get
  let source := d.layout.factFile move.source p
  let target := d.layout.factFile move.target p
  if d.files.has source then
    onDisk do
      Disk.makeParent target
      Disk.attempt (·.rename source target)

/-- Moves the files of all predicates with the symbol that moves. -/
def relocate (move : Relocation) : DirectoryM Unit := do
  let d ← get
  (d.facts.predicates.filter fun p => p.symbol = move.symbol).forM (moveFile move)

/-- What an import has added so far: the number of facts, and the number for each symbol. -/
structure Imported where
  total : Nat := 0
  bySymbol : SortedMap String Int64 := ∅

/-- Inserts the facts of one predicate of an import. -/
def importOne (done : Imported) (entry : Predicate × Relation) : DirectoryM Imported := do
  let (p, r) := entry
  let added ← insert p r
  return {
    total := done.total + added.size
    bySymbol := done.bySymbol.alter p.symbol fun n => n.getD 0 + Int64.ofNat added.size }

/-- Imports a batch of facts: inserts them, counts the new ones toward their partitions, moves the
files of symbols that get one, and saves the partition table. The answer is the number of new facts. -/
def importBatch (batch : Facts) : DirectoryM Nat := do
  let done ← batch.toList.foldlM importOne {}
  let d ← get
  let (partitions, moves) := d.partitions.add done.bySymbol.toList
  set { d with partitions }
  moves.forM relocate
  onDisk (partitions.save d.layout)
  return done.total

/-- Writes the results of one evaluation and names their directory. -/
def writeInference (name flowId : String) (r : Relation) : DirectoryM Path := do
  let d ← get
  onDisk (Disk.writeStaged d.layout.stagingDir (d.layout.stagedInference name flowId)
    (d.layout.inferenceFile name flowId) (FactFile.write r))
  return d.layout.inferenceDir name flowId

end Directory

instance : FactStore Directory where
  facts d := d.facts
  insert d p r := Directory.insert p r d

end Datalog
