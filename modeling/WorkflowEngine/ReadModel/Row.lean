import WorkflowEngine.ReadModel.Status
import WorkflowEngine.Task.Dag

/-!
The rows of the read model: events of the permanent log, tasks and runs.
-/

namespace WorkflowEngine

/-- An entry of the permanent event log. -/
structure TaskEvent where
  tenantId : TenantId
  taskId : TaskId
  /-- When the task was created. -/
  taskInsertedAt : Instant
  retryCount : Int
  eventType : EventType
  /-- What the event implies. -/
  status : Status := eventType.status
  timestamp : Instant
  workerId : Option WorkerId := none
  payload : String := ""
  message : Option String := none
  deriving DecidableEq, Repr, Inhabited

namespace TaskEvent

/-- Events with one key are duplicates: the same event of the same attempt. -/
def dedupKey (e : TaskEvent) : String := s!"{e.taskId}-{e.eventType.name}-{e.retryCount}"

def fieldNames : List String :=
  ["tenant_id", "task_id", "task_inserted_at", "retry_count", "event_type", "readable_status",
   "event_timestamp", "worker_id", "payload", "message"]

instance : Codec TaskEvent where
  encode e := .ofMembers [
    ("tenant_id", encode e.tenantId),
    ("task_id", .int e.taskId),
    ("task_inserted_at", encode e.taskInsertedAt),
    ("retry_count", .int e.retryCount),
    ("event_type", encode e.eventType),
    ("readable_status", encode e.status),
    ("event_timestamp", encode e.timestamp),
    ("worker_id", .ofOption encode e.workerId),
    ("payload", .str e.payload),
    ("message", .ofOption .str e.message)]
  decode depth d := do
    let fields ← Fields.of? fieldNames depth d
    return {
      tenantId := ← fields.required "tenant_id" Codec.decode
      taskId := ← fields.required "task_id" .int64
      taskInsertedAt := ← fields.required "task_inserted_at" Codec.decode
      retryCount := ← fields.required "retry_count" .int32
      eventType := ← fields.required "event_type" Codec.decode
      status := ← fields.required "readable_status" Codec.decode
      timestamp := ← fields.required "event_timestamp" Codec.decode
      workerId := ← fields.optional "worker_id" Codec.decode
      payload := ← fields.required "payload" .text
      message := ← fields.optional "message" .text }

end TaskEvent

/-- A task as readers see it. -/
structure TaskRow where
  tenantId : TenantId
  id : TaskId
  insertedAt : Instant
  externalId : ExternalId
  queue : String
  workflowId : WorkflowId
  dagId : Option DagId
  dagInsertedAt : Option Instant
  displayName : String
  input : Json
  additionalMetadata : List (String × String)
  status : Status := .queued
  /-- The attempt that the status belongs to. -/
  latestRetryCount : Int := 0
  /-- The worker of the last applied event that named one. -/
  latestWorkerId : Option WorkerId := none
  deriving Inhabited

namespace TaskRow

/-- The row of a new task. It starts out as queued, in whatever state the task was created. -/
def ofTask (t : Task) : TaskRow where
  tenantId := t.tenantId
  id := t.id
  insertedAt := t.insertedAt
  externalId := t.externalId
  queue := t.queue
  workflowId := t.workflowId
  dagId := t.dagId
  dagInsertedAt := t.dagInsertedAt
  displayName := t.displayName
  input := t.input
  additionalMetadata := t.additionalMetadata

/-- The written form. -/
def toJson (t : TaskRow) : Json := .ofMembers [
  ("tenant_id", encode t.tenantId),
  ("id", .int t.id),
  ("inserted_at", encode t.insertedAt),
  ("external_id", encode t.externalId),
  ("queue", .str t.queue),
  ("workflow_id", encode t.workflowId),
  ("dag_id", .ofOption .int t.dagId),
  ("dag_inserted_at", .ofOption encode t.dagInsertedAt),
  ("display_name", .str t.displayName),
  ("input", t.input),
  ("additional_metadata", .ofTexts t.additionalMetadata),
  ("readable_status", encode t.status),
  ("latest_retry_count", .int t.latestRetryCount),
  ("latest_worker_id", .ofOption encode t.latestWorkerId)]

end TaskRow

/-- A run as readers see it. -/
structure DagRow where
  tenantId : TenantId
  id : DagId
  insertedAt : Instant
  externalId : ExternalId
  workflowId : WorkflowId
  displayName : String
  input : Json
  additionalMetadata : List (String × String)
  totalTasks : Nat
  status : Status := .queued
  deriving Inhabited

namespace DagRow

def ofDag (d : Dag) : DagRow where
  tenantId := d.tenantId
  id := d.id
  insertedAt := d.insertedAt
  externalId := d.externalId
  workflowId := d.workflowId
  displayName := d.displayName
  input := d.input
  additionalMetadata := d.additionalMetadata
  totalTasks := d.totalTasks

/-- The written form. -/
def toJson (d : DagRow) : Json := .ofMembers [
  ("tenant_id", encode d.tenantId),
  ("id", .int d.id),
  ("inserted_at", encode d.insertedAt),
  ("external_id", encode d.externalId),
  ("workflow_id", encode d.workflowId),
  ("display_name", .str d.displayName),
  ("input", d.input),
  ("additional_metadata", .ofTexts d.additionalMetadata),
  ("total_tasks", .ofNat d.totalTasks),
  ("readable_status", encode d.status)]

end DagRow

end WorkflowEngine
