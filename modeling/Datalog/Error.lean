import Datalog.Builtin

/-!
# What can go wrong

Every failure is a cause, a value that says what was found where; `message` gives its text. Causes
that come from the outside, such as a file that cannot be written, carry no text of their own.
-/

namespace Datalog

/-- An argument list or a constant filter of the wrong width. -/
inductive ArityFault where
  | argumentCount (builtin : Builtin) (given : Nat)
  | unboundArguments (builtin : Builtin) (count : Nat)
  | unboundInRule (atom : Atom) (rule : Rule) (count : Nat)
  | filterWidth (constants arity : Nat)
  | filterPosition (position arity : Nat)
  deriving DecidableEq

/-- The text of an arity fault. -/
def ArityFault.message : ArityFault → String
  | .argumentCount b given => s!"{b.name} expects {b.arity} arguments, got {given}"
  | .unboundArguments b count => s!"{b.name} called with {count} unbound arguments"
  | .unboundInRule atom rule count => s!"{atom} in rule '{rule}' has {count} unbound arguments"
  | .filterWidth constants arity => s!"filter binds {constants} constants on a tuple of arity {arity}"
  | .filterPosition position arity =>
    s!"filter position {position} is outside a tuple of arity {arity}"

/-- Why a rule cannot be evaluated. -/
inductive SafetyFault where
  | cannotBind (atom : Atom) (position : Nat) (builtin : Builtin)
  | negatedVariable (name : String) (atom : Atom)
  | negatedBuiltin (atom : Atom)
  | headVariable (name : String)
  | openFact
  deriving DecidableEq

/-- The text of a safety fault. -/
def SafetyFault.message : SafetyFault → String
  | .cannotBind atom position b => s!"{atom} cannot bind argument {position} of {b.name}"
  | .negatedVariable x atom => s!"variable ?{x} of negated literal {atom} is not bound"
  | .negatedBuiltin atom => s!"negated builtin {atom} has an unbound argument"
  | .headVariable x => s!"head variable ?{x} is not bound by the body"
  | .openFact => "only ground facts can be imported"

/-- Why a dataflow job is refused, or a sink cannot be read. -/
inductive DataflowError where
  | unknownBinding (name : String)
  | arityMismatch (name : String) (expected found : Nat)
  | keyLengths (left right : List Nat)
  | unknownSink (name : String)
  deriving DecidableEq

/-- The text of a list of columns, such as `[0, 2]`. -/
def columnsText (columns : List Nat) : String := "[" ++ ", ".intercalate (columns.map toString) ++ "]"

/-- The text of a dataflow error. -/
def DataflowError.message : DataflowError → String
  | .unknownBinding name => s!"Unknown input binding '{name}'"
  | .arityMismatch name expected found =>
    s!"Input '{name}' expects arity {expected}, found a tuple of arity {found}"
  | .keyLengths left right =>
    "Invalid plan: join keys differ in length: " ++ columnsText left ++ " vs " ++ columnsText right
  | .unknownSink name => s!"Unknown sink '{name}'"

/-- Why a store operation failed. -/
inductive StoreError where
  /-- The file system refused an operation, or a file is not text. -/
  | file
  /-- A line of a fact file is no fact record. -/
  | record
  /-- The partition table is cut short or not text. -/
  | partitions
  /-- The staging file of a write is already there. -/
  | concurrentWrite (path : String)
  /-- A record has another number of terms than its predicate. -/
  | recordArity (arity : Nat) (predicate : Predicate)
  /-- A record holds a variable. -/
  | openRecord (tuple : Tuple) (predicate : Predicate)
  deriving DecidableEq

/-- The text of a store error, for those that have one. -/
def StoreError.message? : StoreError → Option String
  | .concurrentWrite path => some s!"Staging file already exists: {path}"
  | .recordArity arity p => some s!"Metadata error: record of arity {arity} in {p}"
  | .openRecord t p => some s!"Metadata error: non-ground record {t.text} in {p}"
  | _ => none

/-- A setting that cannot be used. -/
inductive SettingFault where
  | strategy (name : String)
  | blockSize (size : Int)
  | malformed
  | logFile
  | logFilter
  deriving DecidableEq

/-- The text of a setting fault, for those that have one. -/
def SettingFault.message? : SettingFault → Option String
  | .strategy name =>
    some s!"unknown evaluation strategy '{name}' (expected 'naive' or 'dependency')"
  | .blockSize size => some s!"partition_block_size must be positive, got {size}"
  | _ => none

/-- What made an evaluation fail. -/
inductive Cause where
  | dataflow (e : DataflowError)
  | store (e : StoreError)
  | other (text : String)
  deriving DecidableEq

/-- The text of a cause, for those that have one. -/
def Cause.message? : Cause → Option String
  | .dataflow e => some e.message
  | .store e => e.message?
  | .other text => some text

/-- Why the engine gave up. -/
inductive EngineError where
  | stratification (predicate : Predicate) (stratum bound : Nat)
  | safety (rule : Rule) (fault : SafetyFault)
  | arity (fault : ArityFault)
  | evaluation (context : String) (cause : Cause)
  | concurrentWrite (path : String)
  | setting (fault : SettingFault)
  deriving DecidableEq

namespace EngineError

/-- The text of an engine error, for those whose cause has one. -/
def message? : EngineError → Option String
  | .stratification p stratum bound =>
    some s!"Program is not stratifiable: '{p}' reached stratum {stratum}, above the bound of {bound} rules"
  | .safety rule fault => some s!"Unsafe rule '{rule}': {fault.message}"
  | .arity fault => some s!"Arity error: {fault.message}"
  | .evaluation context cause =>
    cause.message?.map fun text => s!"Evaluation failed during {context}: {text}"
  | .concurrentWrite path => some s!"Concurrent write detected: staging file {path} already exists"
  | .setting fault => fault.message?.map fun text => s!"Configuration error: {text}"

/-- A store error seen from the engine: a concurrent write stays one, and anything else makes the
evaluation fail. -/
def ofStore : StoreError → EngineError
  | .concurrentWrite path => .concurrentWrite path
  | e => .evaluation "storage" (.store e)

/-- A dataflow error of a job that no rule submitted. -/
def ofDataflow (e : DataflowError) : EngineError := .evaluation "dataflow job" (.dataflow e)

end EngineError

namespace Builtin

/-- Applies a builtin to arguments of which at most one is missing. The answer is the completed
argument list, or `none` when the relation does not hold or leaves the argument undetermined. -/
def apply (b : Builtin) (args : List (Option Term)) : Except ArityFault (Option (List Term)) :=
  if args.length ≠ b.arity then .error (.argumentCount b args.length)
  else
    match args.count none with
    | 0 =>
      let ts := args.filterMap id
      .ok (if b.holds ts then some ts else none)
    | 1 => .ok do
      let t ← b.solve? args
      let ts := args.map fun a => a.getD t
      if b.holds ts then some ts else none
    | n => .error (.unboundArguments b n)

end Builtin

end Datalog
