import Datalog.Storage.Directory

/-!
# Stores

A store keeps its facts in memory only, or also in a project directory. Both answer the same
questions; only a directory has partitions and keeps the results of evaluations.
-/

namespace Datalog

/-- Where facts are kept. -/
inductive Backend where
  | memory
  | directory
  deriving DecidableEq, Inhabited

/-- The name of a backend. -/
def Backend.name : Backend → String
  | .memory => "memory"
  | .directory => "directory"

/-- The backend with the given name. -/
def Backend.ofName? (name : String) : Option Backend :=
  if name = "memory" then some .memory else if name = "directory" then some .directory else none

/-- Facts in memory, or in a project directory. -/
inductive Store where
  | memory (facts : Facts)
  | directory (d : Directory)

namespace Store

/-- The facts of a store. -/
def facts : Store → Facts
  | .memory f => f
  | .directory d => d.facts

/-- Runs an action of a directory store. -/
def runDirectory {α : Type} (act : DirectoryM α) (d : Directory) : Except StoreError α × Store :=
  let (result, d) := act d
  (result, .directory d)

/-- Adds tuples to a predicate. The answer holds the new ones. -/
def insert (s : Store) (p : Predicate) (r : Relation) : Except StoreError Relation × Store :=
  match s with
  | .memory f => (.ok (r.diff (f.scan p)), .memory (f.add p r))
  | .directory d => runDirectory (Directory.insert p r) d

instance : FactStore Store where
  facts := facts
  insert := insert

/-- Imports a batch of facts. The answer is the number of new ones. -/
def importBatch (s : Store) (batch : Facts) : Except StoreError Nat × Store :=
  match s with
  | .memory f =>
    let total := batch.toList.foldr (fun (p, r) n => (r.diff (f.scan p)).size + n) 0
    (.ok total, .memory (batch.toList.foldl (fun f (p, r) => f.add p r) f))
  | .directory d => runDirectory (Directory.importBatch batch) d

/-- Keeps the results of one evaluation, if the store does, and names their directory. -/
def recordResult (s : Store) (name : String) (ctx : Context) (r : Relation) :
    Except StoreError (Option Path) × Store :=
  match s with
  | .memory f => (.ok none, .memory f)
  | .directory d => runDirectory (some <$> Directory.writeInference name ctx.flowId r) d

/-- The partitions of a store that has any. -/
def partitions? : Store → Option PartitionMap
  | .memory _ => none
  | .directory d => some d.partitions

/-- Opens a store. The tree is returned also when that fails. -/
def openFrom (backend : Backend) (layout : Layout) (blockSize : Int64) (files : FileTree) :
    Except StoreError Store × FileTree :=
  match backend with
  | .memory => (.ok (.memory ∅), files)
  | .directory =>
    match Directory.openFrom layout blockSize files with
    | (.ok d, files) => (.ok (.directory d), files)
    | (.error e, files) => (.error e, files)

/-- The store with its files replaced, as when someone else changes them. -/
def withFiles (files : FileTree) : Store → Store
  | .memory f => .memory f
  | .directory d => .directory { d with files }

/-- The files of a store that has any. -/
def files? : Store → Option FileTree
  | .memory _ => none
  | .directory d => some d.files

end Store

end Datalog
