import WorkflowEngine.Admission.Policy
import WorkflowEngine.Alert
import WorkflowEngine.Ascending
import WorkflowEngine.Bus.Broker
import WorkflowEngine.Bus.Consumer
import WorkflowEngine.Bus.Message
import WorkflowEngine.Bus.Payload
import WorkflowEngine.Calendar.Date
import WorkflowEngine.Calendar.Instant
import WorkflowEngine.Calendar.Span
import WorkflowEngine.Decimal.Double
import WorkflowEngine.Decimal.Shortest
import WorkflowEngine.Effect.Posting
import WorkflowEngine.Effect.Request
import WorkflowEngine.Effect.Sweep
import WorkflowEngine.Engine.ReadModel
import WorkflowEngine.Engine.State
import WorkflowEngine.Engine.Supervision
import WorkflowEngine.Engine.Tasks
import WorkflowEngine.Fault
import WorkflowEngine.Guarded
import WorkflowEngine.Host.Clock
import WorkflowEngine.Host.Control
import WorkflowEngine.Host.Loops
import WorkflowEngine.Host.Progress
import WorkflowEngine.Host.Requests
import WorkflowEngine.Host.State
import WorkflowEngine.Host.Supervision
import WorkflowEngine.Identifier
import WorkflowEngine.Json.Codec
import WorkflowEngine.Json.Document
import WorkflowEngine.Json.Printer
import WorkflowEngine.Json.Reader
import WorkflowEngine.Json.Value
import WorkflowEngine.LogFormat
import WorkflowEngine.Metrics
import WorkflowEngine.Pool.Rehearsal
import WorkflowEngine.Pool.State
import WorkflowEngine.Proofs.Admission
import WorkflowEngine.Proofs.Ascending
import WorkflowEngine.Proofs.Fallible
import WorkflowEngine.Proofs.ReadModel.Delivery
import WorkflowEngine.Proofs.ReadModel.Fold
import WorkflowEngine.Proofs.ReadModel.Pass
import WorkflowEngine.Proofs.Store.Capacity
import WorkflowEngine.Proofs.Store.Decision
import WorkflowEngine.Proofs.Store.Lifecycle
import WorkflowEngine.Proofs.Store.Move
import WorkflowEngine.Proofs.Store.Operation
import WorkflowEngine.Proofs.Store.Parts
import WorkflowEngine.Proofs.Store.Place
import WorkflowEngine.Proofs.Store.Reachable
import WorkflowEngine.Proofs.Store.Registration
import WorkflowEngine.Proofs.Store.Sound
import WorkflowEngine.ReadModel.Dedup
import WorkflowEngine.ReadModel.Fold
import WorkflowEngine.ReadModel.Partition
import WorkflowEngine.ReadModel.Row
import WorkflowEngine.ReadModel.State
import WorkflowEngine.ReadModel.Status
import WorkflowEngine.Settings
import WorkflowEngine.Store.Admission
import WorkflowEngine.Store.Basic
import WorkflowEngine.Store.Creation
import WorkflowEngine.Store.Lifecycle
import WorkflowEngine.Store.Registry
import WorkflowEngine.Task.Basic
import WorkflowEngine.Task.Dag
import WorkflowEngine.Task.Outcome
import WorkflowEngine.Task.State
import WorkflowEngine.Text.Blank
import WorkflowEngine.Workflow.Definition
import WorkflowEngine.Workflow.KeyExpression
import WorkflowEngine.Proofs.Bus.Broker
import WorkflowEngine.Proofs.Bus.Payload
import WorkflowEngine.Proofs.ReadModel.Coherent
import WorkflowEngine.Proofs.ReadModel.Dedup
import WorkflowEngine.Proofs.System.Announcement
import WorkflowEngine.Proofs.System.Intake
import WorkflowEngine.Proofs.System.Run
import WorkflowEngine.Proofs.Store.Custody
import WorkflowEngine.Proofs.Store.Attempts
import WorkflowEngine.Proofs.Task.Outcome
import WorkflowEngine.Proofs.Store.Outcomes
import WorkflowEngine.Proofs.System.Outcomes
import WorkflowEngine.Proofs.System.Publication
import WorkflowEngine.Proofs.Store.Batches
import WorkflowEngine.Proofs.System.Batches
import WorkflowEngine.Proofs.System.Transparency
import WorkflowEngine.Proofs.System.Agreement
import WorkflowEngine.Proofs.Store.Accounting
import WorkflowEngine.Proofs.Store.Completion
import WorkflowEngine.Proofs.ReadModel.Status
import WorkflowEngine.Proofs.System.Precedence
import WorkflowEngine.Proofs.ReadModel.Runs
import WorkflowEngine.Proofs.System.Isolation
import WorkflowEngine.Proofs.Store.InPlace
import WorkflowEngine.Proofs.ReadModel.InPlace
import WorkflowEngine.Proofs.System.Faults
import WorkflowEngine.Proofs.System.Commands
import WorkflowEngine.Proofs.Store.Eviction
import WorkflowEngine.Proofs.System.Eviction
import WorkflowEngine.Proofs.Store.Growth
import WorkflowEngine.Proofs.Store.Redelivery
import WorkflowEngine.Proofs.Store.Subscription
import WorkflowEngine.Proofs.System.Redelivery
import WorkflowEngine.Proofs.System.Subscription
import WorkflowEngine.Proofs.Store.Deadlines
import WorkflowEngine.Proofs.ReadModel.Ownership
import WorkflowEngine.Proofs.Store.Calls
import WorkflowEngine.Proofs.Store.Onward
import WorkflowEngine.Proofs.Store.Entries
import WorkflowEngine.Proofs.System.Readable
import WorkflowEngine.Proofs.ReadModel.Maintenance
import WorkflowEngine.Proofs.ReadModel.Tables
import WorkflowEngine.Proofs.ReadModel.Queue
import WorkflowEngine.Proofs.ReadModel.Journey
import WorkflowEngine.Proofs.ReadModel.Drain
import WorkflowEngine.Proofs.System.Ingestion
import WorkflowEngine.Proofs.System.Reconciliation
import WorkflowEngine.Proofs.Admission.Cancelling
import WorkflowEngine.Proofs.Admission.RoundRobin
import WorkflowEngine.Proofs.Admission.Summary
import WorkflowEngine.Proofs.Store.Verdicts
import WorkflowEngine.Proofs.Admission.Rest
import WorkflowEngine.Proofs.Store.Rest
import WorkflowEngine.Proofs.Store.Lives
import WorkflowEngine.Proofs.System.Sweeping
import WorkflowEngine.Proofs.Store.Children
import WorkflowEngine.Proofs.Bus.Batching
import WorkflowEngine.Proofs.Bus.Queues
import WorkflowEngine.Proofs.Bus.Traffic
import WorkflowEngine.Proofs.Bus.Shutdown
import WorkflowEngine.Proofs.System.Shutdown
import WorkflowEngine.Proofs.Store.Timekeeping
import WorkflowEngine.Proofs.Store.Failures
import WorkflowEngine.Proofs.Store.Turnover
import WorkflowEngine.Proofs.System.Wakeup
import WorkflowEngine.Proofs.Bus.Lineage
import WorkflowEngine.Proofs.Bus.Retries
import WorkflowEngine.Proofs.ReadModel.Winner
import WorkflowEngine.Proofs.ReadModel.Applied
import WorkflowEngine.Proofs.ReadModel.Listing
import WorkflowEngine.Proofs.ReadModel.Trail
import WorkflowEngine.Proofs.System.Stops
import WorkflowEngine.Proofs.System.Monitoring
import WorkflowEngine.Proofs.History
import WorkflowEngine.Proofs.Pool.Runs
import WorkflowEngine.Proofs.Pool.Triggers
import WorkflowEngine.Proofs.Pool.Rehearsal
import WorkflowEngine.Proofs.System.Evaluating
import WorkflowEngine.Proofs.Bus.Failing
import WorkflowEngine.Proofs.System.Budget
