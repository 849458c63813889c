import BuildPipeline.Binary64
import BuildPipeline.Build
import BuildPipeline.Capability
import BuildPipeline.Config
import BuildPipeline.Containers
import BuildPipeline.Daemon.Basic
import BuildPipeline.Daemon.Connection
import BuildPipeline.Daemon.Log
import BuildPipeline.Daemon.Startup
import BuildPipeline.Deadline
import BuildPipeline.Defect
import BuildPipeline.Engine.Basic
import BuildPipeline.Engine.Execution
import BuildPipeline.Engine.Settle
import BuildPipeline.Engine.Table
import BuildPipeline.Files
import BuildPipeline.Flow.Basic
import BuildPipeline.Flow.Drive
import BuildPipeline.Flow.Effect
import BuildPipeline.Flow.Progress
import BuildPipeline.Flow.Turn
import BuildPipeline.Heap.Basic
import BuildPipeline.Heap.Lemmas
import BuildPipeline.Heap.Order
import BuildPipeline.Json.Draft
import BuildPipeline.Json.Lexeme
import BuildPipeline.Json.Numeral
import BuildPipeline.Json.Value
import BuildPipeline.Keyed
import BuildPipeline.Main
import BuildPipeline.Message
import BuildPipeline.Path
import BuildPipeline.Phase
import BuildPipeline.Pipeline
import BuildPipeline.Proofs.Daemon.Deletion
import BuildPipeline.Proofs.Daemon.Exclusion
import BuildPipeline.Proofs.Daemon.Lookup
import BuildPipeline.Proofs.Daemon.Occupying
import BuildPipeline.Proofs.Daemon.Starting
import BuildPipeline.Proofs.Deadlines
import BuildPipeline.Proofs.Deadlines.Agenda
import BuildPipeline.Proofs.Deadlines.Live
import BuildPipeline.Proofs.Deadlines.Marks
import BuildPipeline.Proofs.Descent
import BuildPipeline.Proofs.Engine.Admitting
import BuildPipeline.Proofs.Engine.Answering
import BuildPipeline.Proofs.Engine.Arming
import BuildPipeline.Proofs.Engine.Closing
import BuildPipeline.Proofs.Engine.Covering
import BuildPipeline.Proofs.Engine.Disregarded
import BuildPipeline.Proofs.Engine.Faithful
import BuildPipeline.Proofs.Engine.Handed
import BuildPipeline.Proofs.Engine.Handling
import BuildPipeline.Proofs.Engine.Isolation
import BuildPipeline.Proofs.Engine.Lives
import BuildPipeline.Proofs.Engine.Matching
import BuildPipeline.Proofs.Engine.Moves
import BuildPipeline.Proofs.Engine.Operations
import BuildPipeline.Proofs.Engine.Playing
import BuildPipeline.Proofs.Engine.Publishing
import BuildPipeline.Proofs.Engine.Reported
import BuildPipeline.Proofs.Engine.Rounds
import BuildPipeline.Proofs.Engine.Settlement
import BuildPipeline.Proofs.Engine.Settling
import BuildPipeline.Proofs.Engine.Tending
import BuildPipeline.Proofs.Flow.Aborting
import BuildPipeline.Proofs.Flow.Addressed
import BuildPipeline.Proofs.Flow.Advance
import BuildPipeline.Proofs.Flow.Alike
import BuildPipeline.Proofs.Flow.Barrier
import BuildPipeline.Proofs.Flow.Binding
import BuildPipeline.Proofs.Flow.Calls
import BuildPipeline.Proofs.Flow.Commuting
import BuildPipeline.Proofs.Flow.Course
import BuildPipeline.Proofs.Flow.Detached
import BuildPipeline.Proofs.Flow.Discipline
import BuildPipeline.Proofs.Flow.Effects
import BuildPipeline.Proofs.Flow.Failing
import BuildPipeline.Proofs.Flow.FanOut
import BuildPipeline.Proofs.Flow.Finality
import BuildPipeline.Proofs.Flow.Forestalled
import BuildPipeline.Proofs.Flow.Growth
import BuildPipeline.Proofs.Flow.Issuing
import BuildPipeline.Proofs.Flow.Iterations
import BuildPipeline.Proofs.Flow.Lasting
import BuildPipeline.Proofs.Flow.Lifecycle
import BuildPipeline.Proofs.Flow.Lines
import BuildPipeline.Proofs.Flow.Lookups
import BuildPipeline.Proofs.Flow.Merging
import BuildPipeline.Proofs.Flow.Outcome
import BuildPipeline.Proofs.Flow.Owned
import BuildPipeline.Proofs.Flow.Ranges
import BuildPipeline.Proofs.Flow.Replies
import BuildPipeline.Proofs.Flow.Reporting
import BuildPipeline.Proofs.Flow.Schedule
import BuildPipeline.Proofs.Flow.Sending
import BuildPipeline.Proofs.Flow.Serving
import BuildPipeline.Proofs.Flow.Settling
import BuildPipeline.Proofs.Flow.Slots
import BuildPipeline.Proofs.Flow.Stages
import BuildPipeline.Proofs.Flow.Standing
import BuildPipeline.Proofs.Flow.Steady
import BuildPipeline.Proofs.Flow.Trailing
import BuildPipeline.Proofs.Flow.Turns
import BuildPipeline.Proofs.Flow.Unfinished
import BuildPipeline.Proofs.Flow.Updates
import BuildPipeline.Proofs.Flow.Verdict
import BuildPipeline.Proofs.Flow.Waiting
import BuildPipeline.Proofs.Flow.Way
import BuildPipeline.Proofs.Json.Lexing
import BuildPipeline.Proofs.Json.Quoted
import BuildPipeline.Proofs.Json.Trees
import BuildPipeline.Proofs.Paths
import BuildPipeline.Proofs.Provider.Ranking
import BuildPipeline.Proofs.Repository
import BuildPipeline.Proofs.Text.Digits
import BuildPipeline.Proofs.Time.Written
import BuildPipeline.Proofs.Wire.Admission
import BuildPipeline.Proofs.Wire.Formats
import BuildPipeline.Proofs.Wire.Forms
import BuildPipeline.Proofs.Wire.Framing
import BuildPipeline.Proofs.Wire.Lenience
import BuildPipeline.Proofs.Wire.Reading
import BuildPipeline.Proofs.Wire.Refusal
import BuildPipeline.Proofs.Wire.Rereading
import BuildPipeline.Proofs.Wire.Tagging
import BuildPipeline.Proofs.Wire.Writing
import BuildPipeline.Provider.Basic
import BuildPipeline.Provider.Chains
import BuildPipeline.Provider.Registry
import BuildPipeline.Provider.Step
import BuildPipeline.Repository
import BuildPipeline.Stage
import BuildPipeline.Status
import BuildPipeline.Store
import BuildPipeline.Text.Blank
import BuildPipeline.Text.Decimal
import BuildPipeline.Text.Reader
import BuildPipeline.Time.Clock
import BuildPipeline.Time.Date
import BuildPipeline.Time.Moment
import BuildPipeline.Time.Quantity
import BuildPipeline.Time.Span
import BuildPipeline.Time.Written
import BuildPipeline.Toml.Document
import BuildPipeline.Toml.Scalar
import BuildPipeline.Toml.Shape
import BuildPipeline.Toml.Value
import BuildPipeline.Wire.Codec
import BuildPipeline.Wire.Frame
import BuildPipeline.Wire.Model
import BuildPipeline.Wire.Record
import BuildPipeline.Wire.Request
