import Datalog.Files.Path
import Datalog.Rule
import Datalog.Text.Decimal
import Datalog.Text.Split

/-!
# The layout of a project directory

    facts/_predicates                        the partition table
    facts/<location>/<symbol>_<arity>.jsonl  the facts of one predicate
    inferences/<name>/<name><flow id>/       the results of one evaluation
    _tmp/                                    files that are being written
-/

namespace Datalog

/-- Where a project directory lies. -/
structure Layout where
  project : Path

namespace Layout

/-- The directory of all facts. -/
def factsRoot (l : Layout) : Path := l.project ++ ["facts"]

/-- The directory of the facts of a partition. -/
def factsDir (l : Layout) (location : Int32) : Path := l.factsRoot ++ [toString location.toInt]

/-- The end of the name of a fact file. -/
def factFileExtension : String := ".jsonl"

/-- The name of the file with the facts of a predicate. -/
def factFileName (p : Predicate) : String :=
  p.symbol ++ "_" ++ toString p.arity ++ factFileExtension

/-- The predicate whose facts a file holds, by its name. The symbol is what comes before the last
underscore; the arity may have leading zeros and a plus sign, and has to fit 64 bits. -/
def parseFactFileName? (name : String) : Option Predicate := do
  let stem ← factFileExtension.toList.isSuffixOf? name.toList
  let (symbol, digits) ← Text.splitLast? '_' stem
  let arity ← Decimal.readUnsigned? digits
  if symbol.isEmpty || UInt64.size ≤ arity then none else some ⟨String.ofList symbol, arity⟩

/-- The file with the facts of a predicate in a partition. -/
def factFile (l : Layout) (location : Int32) (p : Predicate) : Path :=
  l.factsDir location ++ [factFileName p]

/-- The file of the partition table. -/
def partitionTable (l : Layout) : Path := l.factsRoot ++ ["_predicates"]

/-- The directory of the results of one evaluation. -/
def inferenceDir (l : Layout) (name flowId : String) : Path :=
  l.project ++ ["inferences", name, name ++ flowId]

/-- The file with the results of one evaluation. -/
def inferenceFile (l : Layout) (name flowId : String) : Path :=
  l.inferenceDir name flowId ++ ["part-00000" ++ factFileExtension]

/-- The directory of files that are being written. -/
def stagingDir (l : Layout) : Path := l.project ++ ["_tmp"]

/-- A file that is being written. -/
def stagingFile (l : Layout) (name : String) : Path := l.stagingDir ++ [name]

/-- The staging file of the partition table. -/
def stagedTable (l : Layout) : Path := l.stagingFile "_predicates.tmp"

/-- The staging file of the results of one evaluation. -/
def stagedInference (l : Layout) (name flowId : String) : Path := l.stagingFile (name ++ flowId ++ ".part")

end Layout

end Datalog
