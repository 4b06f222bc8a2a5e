import BuildMatrix.Build
import BuildMatrix.ByteSize
import BuildMatrix.Cache.Basic
import BuildMatrix.Cache.Record
import BuildMatrix.Classpath
import BuildMatrix.Cli.Building
import BuildMatrix.Cli.Caching
import BuildMatrix.Cli.CommandLine
import BuildMatrix.Cli.Options
import BuildMatrix.Cli.Reply
import BuildMatrix.Cli.Run
import BuildMatrix.Cli.Setup
import BuildMatrix.Command.Basic
import BuildMatrix.Command.Run
import BuildMatrix.Config.Basic
import BuildMatrix.Config.Decode
import BuildMatrix.Config.Defaults
import BuildMatrix.Config.Encode
import BuildMatrix.Config.Error
import BuildMatrix.Config.Loading
import BuildMatrix.Config.Validation
import BuildMatrix.Console
import BuildMatrix.DataFormat
import BuildMatrix.Decimal
import BuildMatrix.Duration
import BuildMatrix.Environment
import BuildMatrix.Event
import BuildMatrix.Failure
import BuildMatrix.Fault
import BuildMatrix.FileTree.Access
import BuildMatrix.FileTree.Basic
import BuildMatrix.Fingerprint
import BuildMatrix.Form.Error
import BuildMatrix.Form.Graph
import BuildMatrix.Form.Report
import BuildMatrix.Glob.Expansion
import BuildMatrix.Glob.Pattern
import BuildMatrix.Graph.Basic
import BuildMatrix.Graph.Builder
import BuildMatrix.Graph.Order
import BuildMatrix.Host
import BuildMatrix.Invocation
import BuildMatrix.Json.Access
import BuildMatrix.Json.Basic
import BuildMatrix.Json.Format
import BuildMatrix.Json.Parser
import BuildMatrix.Json.Printer
import BuildMatrix.Layout
import BuildMatrix.Main
import BuildMatrix.Matrix
import BuildMatrix.Output
import BuildMatrix.Path
import BuildMatrix.Perform
import BuildMatrix.Pipeline
import BuildMatrix.Platform
import BuildMatrix.Project
import BuildMatrix.Proofs.Ambiguity
import BuildMatrix.Proofs.Building
import BuildMatrix.Proofs.CacheCalls
import BuildMatrix.Proofs.CacheUpkeep
import BuildMatrix.Proofs.ChangedInputs
import BuildMatrix.Proofs.Classpaths
import BuildMatrix.Proofs.CommandFingerprint
import BuildMatrix.Proofs.ConfigRoundTrip
import BuildMatrix.Proofs.ConfigurationStream
import BuildMatrix.Proofs.Contents
import BuildMatrix.Proofs.Courses
import BuildMatrix.Proofs.Crews
import BuildMatrix.Proofs.Cycles
import BuildMatrix.Proofs.Declarations
import BuildMatrix.Proofs.Directories
import BuildMatrix.Proofs.EventLogs
import BuildMatrix.Proofs.ExitCodes
import BuildMatrix.Proofs.Expansions
import BuildMatrix.Proofs.GraphParts
import BuildMatrix.Proofs.GraphShape
import BuildMatrix.Proofs.Guarantees
import BuildMatrix.Proofs.History
import BuildMatrix.Proofs.Incremental
import BuildMatrix.Proofs.InputFiles
import BuildMatrix.Proofs.InputStreams
import BuildMatrix.Proofs.JsonRoundTrip
import BuildMatrix.Proofs.Launches
import BuildMatrix.Proofs.Layers
import BuildMatrix.Proofs.Ledger
import BuildMatrix.Proofs.Listings
import BuildMatrix.Proofs.Lookups
import BuildMatrix.Proofs.NestedCache
import BuildMatrix.Proofs.OutputDirectories
import BuildMatrix.Proofs.OutputLines
import BuildMatrix.Proofs.PipelineEdges
import BuildMatrix.Proofs.PipelinePaths
import BuildMatrix.Proofs.Placeholders
import BuildMatrix.Proofs.PlainLayouts
import BuildMatrix.Proofs.Poisoning
import BuildMatrix.Proofs.ProductInputs
import BuildMatrix.Proofs.ProjectBuilds
import BuildMatrix.Proofs.ProjectSearch
import BuildMatrix.Proofs.RecordAges
import BuildMatrix.Proofs.RecordFiles
import BuildMatrix.Proofs.RecordReading
import BuildMatrix.Proofs.RecordRemoval
import BuildMatrix.Proofs.RecordSlots
import BuildMatrix.Proofs.RecordStore
import BuildMatrix.Proofs.RecordWatch
import BuildMatrix.Proofs.Registration
import BuildMatrix.Proofs.ReportedCycles
import BuildMatrix.Proofs.Reports
import BuildMatrix.Proofs.Requests
import BuildMatrix.Proofs.Resolution
import BuildMatrix.Proofs.Restriction
import BuildMatrix.Proofs.Reuse
import BuildMatrix.Proofs.Rounds
import BuildMatrix.Proofs.RunnerInvariants
import BuildMatrix.Proofs.ScheduleIndependence
import BuildMatrix.Proofs.Selection
import BuildMatrix.Proofs.Settling
import BuildMatrix.Proofs.SharedKeys
import BuildMatrix.Proofs.SharedRuns
import BuildMatrix.Proofs.SharedUses
import BuildMatrix.Proofs.SharedWork
import BuildMatrix.Proofs.SoloBuilds
import BuildMatrix.Proofs.Sorting
import BuildMatrix.Proofs.TaskNames
import BuildMatrix.Proofs.TaskSteps
import BuildMatrix.Proofs.Timestamps
import BuildMatrix.Proofs.Tracking
import BuildMatrix.Proofs.TreeChanges
import BuildMatrix.Proofs.Trials
import BuildMatrix.Proofs.Validation
import BuildMatrix.Proofs.Workshop
import BuildMatrix.Proofs.YardRecords
import BuildMatrix.Proofs.Yards
import BuildMatrix.Rehearsal.Basic
import BuildMatrix.Rehearsal.Files
import BuildMatrix.Rehearsal.Script
import BuildMatrix.Report
import BuildMatrix.Schedule
import BuildMatrix.Session
import BuildMatrix.Sha256
import BuildMatrix.Shell.Arithmetic
import BuildMatrix.Shell.Builtins
import BuildMatrix.Shell.Condition
import BuildMatrix.Shell.Evaluator
import BuildMatrix.Shell.Expansion
import BuildMatrix.Shell.Format
import BuildMatrix.Shell.Grammar
import BuildMatrix.Shell.Parser
import BuildMatrix.Shell.State
import BuildMatrix.Shell.System
import BuildMatrix.Shell.Utilities
import BuildMatrix.TaskName
import BuildMatrix.TaskResult
import BuildMatrix.TaskTable
import BuildMatrix.Text.Blank
import BuildMatrix.Text.Escaped
import BuildMatrix.Text.Replace
import BuildMatrix.Text.Utf8
import BuildMatrix.Timestamp
import BuildMatrix.Toml.Basic
import BuildMatrix.Toml.Document
import BuildMatrix.Toml.Scalar
import BuildMatrix.Workspace
import BuildMatrix.Yaml.Basic
import BuildMatrix.Yaml.Event
import BuildMatrix.Yaml.Printer
import BuildMatrix.Yaml.Token
