import WorkflowEngine.Calendar.Instant
import WorkflowEngine.Fault
import WorkflowEngine.Identifier
import WorkflowEngine.Task.State

/-!
Tasks and their attempts. A task is one unit of work; each of its executions is an attempt, named by
the task and the number of retries before it. Requests name an attempt, and a task accepts only those
that name its current one.
-/

namespace WorkflowEngine

abbrev TaskId := Int
abbrev DagId := Int
abbrev StrategyId := Int

instance : Codec Identifier where
  encode id := .str id.text
  decode := Decoder.parsed Identifier.parse?

instance : Codec Instant where
  encode t := .str t.text
  decode := Decoder.parsed Instant.parse?

/-- One execution of a task. -/
structure Attempt where
  id : TaskId
  retryCount : Int
  deriving DecidableEq, Repr

namespace Attempt

instance : Inhabited Attempt := ⟨⟨0, 0⟩⟩

instance : Codec Attempt where
  encode a := .ofMembers [("id", .int a.id), ("retry_count", .int a.retryCount)]
  decode depth d := do
    let fields ← Fields.of? ["id", "retry_count"] depth d
    return { id := ← fields.required "id" .int64
             retryCount := ← fields.required "retry_count" .int32 }

end Attempt

structure Task where
  id : TaskId
  insertedAt : Instant
  tenantId : TenantId
  externalId : ExternalId
  queue : String
  stepId : StepId
  /-- The name of the step, under which its output is passed to later steps. -/
  stepReadableId : String
  workflowId : WorkflowId
  displayName : String
  dagId : Option DagId
  dagInsertedAt : Option Instant
  input : Json
  additionalMetadata : List (String × String)
  /-- The current attempt. -/
  retryCount : Int
  /-- How many attempts were used up by timeouts and lost workers. -/
  internalRetryCount : Int
  /-- How many retries the step grants after errors of its own. -/
  retries : Int
  state : TaskState
  initialState : InitialState
  /-- Why the task was created in a state that ends it. -/
  initialStateReason : Option String
  desiredWorkerId : Option WorkerId
  /-- The worker of the current attempt. -/
  workerId : Option WorkerId
  /-- One key for each strategy. -/
  concurrencyKeys : List String
  /-- The strategies that have to admit the task, in order. -/
  concurrencyStrategyIds : List StrategyId
  scheduleTimeoutSecs : Int
  stepTimeoutSecs : Int
  /-- When a waiting task has waited too long. -/
  scheduleTimeoutAt : Option Instant
  /-- When a running attempt has run too long. -/
  timeoutAt : Option Instant
  parentTaskId : Option TaskId
  childIndex : Option Int
  childKey : Option String
  deriving Inhabited

namespace Task

def attempt (t : Task) : Attempt := ⟨t.id, t.retryCount⟩

/-- The attempt is the current one and has not ended. -/
def accepts (t : Task) (a : Attempt) : Bool :=
  a.id == t.id && a.retryCount == t.retryCount && !t.state.isTerminal

/-- The instant some seconds later. A number of seconds or an instant out of range is a panic. -/
def deadline (now : Instant) (seconds : Int) : Except Fault Instant :=
  match now.addSeconds? seconds with
  | some t => .ok t
  | none => .error (.panic "deadline out of range")

/-- A timeout in seconds, if a deadline can be reckoned with it at all. -/
def timeoutSeconds (seconds : Int) : Except Fault Int :=
  if -Instant.maxSeconds ≤ seconds ∧ seconds ≤ Instant.maxSeconds then .ok seconds
  else .error (.panic "timeout out of range")

def fieldNames : List String :=
  ["id", "inserted_at", "tenant_id", "external_id", "queue", "step_id", "step_readable_id",
   "workflow_id", "display_name", "dag_id", "dag_inserted_at", "input", "additional_metadata",
   "retry_count", "internal_retry_count", "retries", "state", "initial_state",
   "initial_state_reason", "desired_worker_id", "worker_id", "concurrency_keys",
   "concurrency_strategy_ids", "schedule_timeout_secs", "step_timeout_secs", "schedule_timeout_at",
   "timeout_at", "parent_task_id", "child_index", "child_key"]

instance : Codec Task where
  encode t := .ofMembers [
    ("id", .int t.id),
    ("inserted_at", encode t.insertedAt),
    ("tenant_id", encode t.tenantId),
    ("external_id", encode t.externalId),
    ("queue", .str t.queue),
    ("step_id", encode t.stepId),
    ("step_readable_id", .str t.stepReadableId),
    ("workflow_id", encode t.workflowId),
    ("display_name", .str t.displayName),
    ("dag_id", .ofOption .int t.dagId),
    ("dag_inserted_at", .ofOption encode t.dagInsertedAt),
    ("input", t.input),
    ("additional_metadata", .ofTexts t.additionalMetadata),
    ("retry_count", .int t.retryCount),
    ("internal_retry_count", .int t.internalRetryCount),
    ("retries", .int t.retries),
    ("state", encode t.state),
    ("initial_state", encode t.initialState),
    ("initial_state_reason", .ofOption .str t.initialStateReason),
    ("desired_worker_id", .ofOption encode t.desiredWorkerId),
    ("worker_id", .ofOption encode t.workerId),
    ("concurrency_keys", .ofList .str t.concurrencyKeys),
    ("concurrency_strategy_ids", .ofList .int t.concurrencyStrategyIds),
    ("schedule_timeout_secs", .int t.scheduleTimeoutSecs),
    ("step_timeout_secs", .int t.stepTimeoutSecs),
    ("schedule_timeout_at", .ofOption encode t.scheduleTimeoutAt),
    ("timeout_at", .ofOption encode t.timeoutAt),
    ("parent_task_id", .ofOption .int t.parentTaskId),
    ("child_index", .ofOption .int t.childIndex),
    ("child_key", .ofOption .str t.childKey)]
  decode depth d := do
    let fields ← Fields.of? fieldNames depth d
    return {
      id := ← fields.required "id" .int64
      insertedAt := ← fields.required "inserted_at" Codec.decode
      tenantId := ← fields.required "tenant_id" Codec.decode
      externalId := ← fields.required "external_id" Codec.decode
      queue := ← fields.required "queue" .text
      stepId := ← fields.required "step_id" Codec.decode
      stepReadableId := ← fields.required "step_readable_id" .text
      workflowId := ← fields.required "workflow_id" Codec.decode
      displayName := ← fields.required "display_name" .text
      dagId := ← fields.optional "dag_id" .int64
      dagInsertedAt := ← fields.optional "dag_inserted_at" Codec.decode
      input := ← fields.required "input" .json
      additionalMetadata := ← fields.required "additional_metadata" .textMap
      retryCount := ← fields.required "retry_count" .int32
      internalRetryCount := ← fields.required "internal_retry_count" .int32
      retries := ← fields.required "retries" .int32
      state := ← fields.required "state" Codec.decode
      initialState := ← fields.required "initial_state" Codec.decode
      initialStateReason := ← fields.optional "initial_state_reason" .text
      desiredWorkerId := ← fields.optional "desired_worker_id" Codec.decode
      workerId := ← fields.optional "worker_id" Codec.decode
      concurrencyKeys := ← fields.required "concurrency_keys" (.list .text)
      concurrencyStrategyIds := ← fields.required "concurrency_strategy_ids" (.list .int64)
      scheduleTimeoutSecs := ← fields.required "schedule_timeout_secs" .int64
      stepTimeoutSecs := ← fields.required "step_timeout_secs" .int64
      scheduleTimeoutAt := ← fields.optional "schedule_timeout_at" Codec.decode
      timeoutAt := ← fields.optional "timeout_at" Codec.decode
      parentTaskId := ← fields.optional "parent_task_id" .int64
      childIndex := ← fields.optional "child_index" .int64
      childKey := ← fields.optional "child_key" .text }

end Task

/-- An attempt that has ended, with what it gave up. -/
structure ReleasedTask where
  id : TaskId
  insertedAt : Instant
  retryCount : Int
  externalId : ExternalId
  stepReadableId : String
  queue : String
  workerId : Option WorkerId
  /-- The strategies whose slots became free. -/
  concurrencyStrategyIds : List StrategyId
  deriving DecidableEq, Repr

namespace ReleasedTask

def ofTask (t : Task) (strategies : List StrategyId) : ReleasedTask where
  id := t.id
  insertedAt := t.insertedAt
  retryCount := t.retryCount
  externalId := t.externalId
  stepReadableId := t.stepReadableId
  queue := t.queue
  workerId := t.workerId
  concurrencyStrategyIds := strategies

def attempt (t : ReleasedTask) : Attempt := ⟨t.id, t.retryCount⟩

/-- The written form. -/
def toJson (t : ReleasedTask) : Json := .ofMembers [
  ("id", .int t.id),
  ("inserted_at", encode t.insertedAt),
  ("retry_count", .int t.retryCount),
  ("external_id", encode t.externalId),
  ("step_readable_id", .str t.stepReadableId),
  ("queue", .str t.queue),
  ("worker_id", .ofOption encode t.workerId),
  ("concurrency_strategy_ids", .ofList .int t.concurrencyStrategyIds)]

end ReleasedTask

/-- A task that waits again after an attempt failed. -/
structure RetriedTask where
  id : TaskId
  /-- The new attempt. -/
  retryCount : Int
  failedAttempt : Attempt
  queue : String
  /-- The attempt failed with an error of its own, not for a timeout or a lost worker. -/
  isAppError : Bool
  /-- The worker of the failed attempt. -/
  workerId : Option WorkerId
  /-- The strategies whose slots the failed attempt gave up. -/
  concurrencyStrategyIds : List StrategyId
  deriving DecidableEq, Repr

/-- The written form. -/
def RetriedTask.toJson (t : RetriedTask) : Json := .ofMembers [
  ("id", .int t.id),
  ("retry_count", .int t.retryCount),
  ("failed_attempt", encode t.failedAttempt),
  ("queue", .str t.queue),
  ("is_app_error", .bool t.isAppError),
  ("worker_id", .ofOption encode t.workerId),
  ("concurrency_strategy_ids", .ofList .int t.concurrencyStrategyIds)]

end WorkflowEngine
