import Datalog.Files
import Datalog.Settings
import Datalog.Settings.Variables
import Datalog.Toml.Document

/-!
# Where settings come from

Settings are read from a JSON document, or from layers: files in TOML, one over the other, and
variables above them. What is missing has its default and what is not known is ignored; what is there
has to be of its kind. A file that is missing gives nothing.
-/

namespace Datalog

namespace SettingTree

/-- The fields of a record, by name. A record is a table, or a list of its fields in their order from the
first on; an exact list has none beyond them. -/
def record? (exact : Bool) (names : List String) : SettingTree → Option (String → Option SettingTree)
  | .table ms => some fun name => find? name ms
  | .list ts =>
    if exact && names.length < ts.length then none else some fun name => ts[names.idxOf name]?
  | _ => none

/-- The value of a field, or its default. -/
def field {α : Type} (read? : SettingTree → Option α) (d : α) : Option SettingTree → Option α
  | none => some d
  | some t => read? t

/-- A truth value. -/
def bool? : SettingTree → Option Bool
  | .bool b => some b
  | _ => none

/-- A text. -/
def text? : SettingTree → Option String
  | .text s => some s
  | _ => none

/-- A text or nothing. -/
def optionalText? : SettingTree → Option (Option String)
  | .nothing => some none
  | .text s => some (some s)
  | _ => none

/-- A natural number of 64 bits. -/
def nat? : SettingTree → Option Nat
  | .int n => if 0 ≤ n && n < UInt64.size then some n.toNat else none
  | _ => none

/-- An integer of 64 bits. -/
def word? : SettingTree → Option Int64
  | .int n => Word.ofInt? n
  | _ => none

/-- A backend: its name, or a table with its name as the one key and nothing there. -/
def backend? : SettingTree → Option Backend
  | .text s => Backend.ofName? s
  | .table [(s, .nothing)] => Backend.ofName? s
  | _ => none

/-- The settings on storage. -/
def storage? (exact : Bool) (t : SettingTree) : Option StorageSettings := do
  let d : StorageSettings := {}
  let entry ← t.record? exact ["project_dir", "backend", "partition_block_size"]
  return {
    projectDir := ← field text? d.projectDir (entry "project_dir")
    backend := ← field backend? d.backend (entry "backend")
    blockSize := ← field word? d.blockSize (entry "partition_block_size") }

/-- The settings on evaluation. -/
def evaluation? (exact : Bool) (t : SettingTree) : Option EvaluationSettings := do
  let d : EvaluationSettings := {}
  let entry ← t.record? exact ["strategy", "max_rule_evaluations", "enable_join_optimization",
    "max_join_permutation_literals", "workers"]
  return {
    strategy := ← field text? d.strategy (entry "strategy")
    maxRuleEvaluations := ← field nat? d.maxRuleEvaluations (entry "max_rule_evaluations")
    reorderJoins := ← field bool? d.reorderJoins (entry "enable_join_optimization")
    maxJoinLiterals := ← field nat? d.maxJoinLiterals (entry "max_join_permutation_literals")
    workers := ← field nat? d.workers (entry "workers") }

/-- The settings on logging. -/
def logging? (exact : Bool) (t : SettingTree) : Option LoggingSettings := do
  let d : LoggingSettings := {}
  let entry ← t.record? exact ["level", "format", "file"]
  return {
    level := ← field text? d.level (entry "level")
    format := ← field text? d.format (entry "format")
    file := ← field optionalText? d.file (entry "file") }

/-- All settings. -/
def settings? (exact : Bool) (t : SettingTree) : Option Settings := do
  let entry ← t.record? exact ["storage", "evaluation", "logging"]
  return {
    storage := ← field (storage? exact) {} (entry "storage")
    evaluation := ← field (evaluation? exact) {} (entry "evaluation")
    logging := ← field (logging? exact) {} (entry "logging") }

end SettingTree

namespace Settings

/-- The settings of a JSON document. -/
def ofJson? (j : Json) : Option Settings := do (← SettingTree.ofJson? j).settings? true

/-- The settings of layers, of which later ones lie above earlier ones. -/
def ofLayers (layers : List SettingTree.Members) : Except EngineError Settings :=
  match (SettingTree.ofLayers layers).settings? false with
  | some s => .ok s
  | none => .error (.setting .malformed)

/-- The layer of a file. What cannot be read as a file gives nothing. -/
def fileLayer (files : FileTree) (file : Path) : Except EngineError SettingTree.Members :=
  match files.read file with
  | .error _ => .ok []
  | .ok bytes =>
    match (Text.ofBytes? bytes).bind Toml.parse? with
    | some ms => .ok (SettingTree.ofTomlMembers ms)
    | none => .error (.setting .malformed)

/-- The settings of an application in one file, below those in its variables. -/
def loadFile (application : String) (env : Environment) (files : FileTree) (file : Path) :
    Except EngineError Settings := do
  ofLayers [← fileLayer files file, env.settings application]

/-- The settings of an application in a directory: those for everyone, above them those for this place
only, and above both those in its variables. -/
def load (application : String) (env : Environment) (files : FileTree) (dir : Path) :
    Except EngineError Settings := do
  let shared ← fileLayer files (dir ++ [application ++ ".toml"])
  let own ← fileLayer files (dir ++ [application ++ ".local.toml"])
  ofLayers [shared, own, env.settings application]

end Settings

end Datalog
