import Datalog.Builtin
import Datalog.Builtin.Word
import Datalog.CompiledRule
import Datalog.Context
import Datalog.Data.Ascending
import Datalog.Data.SortedMap
import Datalog.Data.SortedSet
import Datalog.Dataflow
import Datalog.Error
import Datalog.Evaluation
import Datalog.Evaluation.Dependency
import Datalog.Evaluation.Naive
import Datalog.Evaluation.Run
import Datalog.Evaluation.Scripted
import Datalog.Facts
import Datalog.Files
import Datalog.Files.Path
import Datalog.JoinOrder
import Datalog.Json
import Datalog.Json.Document
import Datalog.Json.Token
import Datalog.Logging
import Datalog.Logging.Filter
import Datalog.Operator
import Datalog.Pattern
import Datalog.Plan
import Datalog.Reasoner
import Datalog.Regex
import Datalog.Regex.Atom
import Datalog.Regex.Class
import Datalog.Regex.Flags
import Datalog.Relation
import Datalog.Rule
import Datalog.Safety
import Datalog.Settings
import Datalog.Settings.Sources
import Datalog.Settings.Tree
import Datalog.Settings.Variables
import Datalog.Storage.Directory
import Datalog.Storage.Disk
import Datalog.Storage.FactRecord
import Datalog.Storage.Layout
import Datalog.Storage.Partition
import Datalog.Storage.PartitionTable
import Datalog.Storage.Store
import Datalog.Stratification
import Datalog.Term
import Datalog.Text.Blank
import Datalog.Text.Bytes
import Datalog.Text.Decimal
import Datalog.Text.Hexadecimal
import Datalog.Text.Letter
import Datalog.Text.Lowercase
import Datalog.Text.Numeral
import Datalog.Text.Ranges
import Datalog.Text.Scan
import Datalog.Text.Split
import Datalog.Text.Uppercase
import Datalog.Toml
import Datalog.Toml.Document
import Datalog.Toml.Quoted
import Datalog.Toml.Scalar
import Datalog.Proofs.BuiltinRelations
import Datalog.Proofs.Layering
import Datalog.Proofs.Meaning
import Datalog.Proofs.Operators
import Datalog.Proofs.JobValidation
import Datalog.Proofs.Derivations
import Datalog.Proofs.CompiledRules
import Datalog.Proofs.Runs
import Datalog.Proofs.Fixpoint
import Datalog.Proofs.Strategies
import Datalog.Proofs.JoinPlans
import Datalog.Proofs.JoinSearch
import Datalog.Proofs.Placement
import Datalog.Proofs.PerfectModel
import Datalog.Proofs.CallByCall
import Datalog.Proofs.CallCounts
import Datalog.Proofs.SafeOrders
import Datalog.Proofs.Rejection
import Datalog.Proofs.FactFiles
import Datalog.Proofs.Partitions
import Datalog.Proofs.FileTrees
import Datalog.Proofs.StagedWrites
import Datalog.Proofs.ProjectPaths
import Datalog.Proofs.ProjectLoading
import Datalog.Proofs.Shelves
import Datalog.Proofs.DirectorySteps
import Datalog.Proofs.Durability
import Datalog.Proofs.Mirroring
import Datalog.Proofs.BackendRefinement
import Datalog.Proofs.Deliveries
import Datalog.Proofs.WellFormedFacts
import Datalog.Proofs.Reevaluation
import Datalog.Proofs.PartitionRecords
import Datalog.Proofs.PartitionRuns
import Datalog.Proofs.IncrementalImports
import Datalog.Proofs.ComputedArguments
import Datalog.Proofs.DeltaEvaluation
import Datalog.Proofs.Reports
import Datalog.Proofs.Termination
import Datalog.Proofs.PlannedBodies
import Datalog.Proofs.FactRecords
import Datalog.Proofs.Queries
import Datalog.Proofs.CachedCounts
import Datalog.Proofs.AllOrNothing
import Datalog.Proofs.Matching
import Datalog.Proofs.FactFileNames
import Datalog.Proofs.ResultFiles
import Datalog.Proofs.RecordedResults
