import WorkflowEngine.Bus.Message
import WorkflowEngine.ReadModel.Status
import WorkflowEngine.Task.Dag

/-!
What the messages of each kind carry, and the messages made of it. Requests and rows for the read
model outlive the broker; monitoring events need not; notices to schedulers expire where nobody
listens.
-/

namespace WorkflowEngine

namespace Fields

/-- A field that is null or left out by default. -/
def optionalByDefault {α : Type} (fields : Fields) (name : String) (decode : Decoder α) :
    Option (Option α) :=
  fields.withDefault name none decode.optional

end Fields

/-- A worker finished an attempt. -/
structure CompletedPayload where
  taskId : TaskId
  retryCount : Int
  output : Json := .null

namespace CompletedPayload

def attempt (p : CompletedPayload) : Attempt := ⟨p.taskId, p.retryCount⟩

instance : Codec CompletedPayload where
  encode p := .ofMembers [
    ("task_id", .int p.taskId), ("retry_count", .int p.retryCount), ("output", p.output)]
  decode depth d := do
    let fields ← Fields.of? ["task_id", "retry_count", "output"] depth d
    return { taskId := ← fields.required "task_id" .int64
             retryCount := ← fields.required "retry_count" .int32
             output := ← fields.withDefault "output" .null .json }

end CompletedPayload

/-- An attempt failed. -/
structure FailedPayload where
  taskId : TaskId
  retryCount : Int
  /-- The step itself failed, not its worker or its deadline. -/
  isAppError : Bool
  errorMessage : String
  deriving DecidableEq, Repr

namespace FailedPayload

def attempt (p : FailedPayload) : Attempt := ⟨p.taskId, p.retryCount⟩

instance : Codec FailedPayload where
  encode p := .ofMembers [
    ("task_id", .int p.taskId), ("retry_count", .int p.retryCount),
    ("is_app_error", .bool p.isAppError), ("error_msg", .str p.errorMessage)]
  decode depth d := do
    let fields ← Fields.of? ["task_id", "retry_count", "is_app_error", "error_msg"] depth d
    return { taskId := ← fields.required "task_id" .int64
             retryCount := ← fields.required "retry_count" .int32
             isAppError := ← fields.required "is_app_error" .bool
             errorMessage := ← fields.required "error_msg" .text }

end FailedPayload

/-- An attempt shall be cancelled. -/
structure CancelledPayload where
  taskId : TaskId
  retryCount : Int
  /-- The dispatcher of the worker shall stop the attempt. -/
  shouldNotify : Bool
  /-- The event that is recorded for it. -/
  eventType : EventType := .cancelled
  /-- A note on the event. -/
  eventMessage : Option String := none
  deriving DecidableEq, Repr

namespace CancelledPayload

def attempt (p : CancelledPayload) : Attempt := ⟨p.taskId, p.retryCount⟩

instance : Codec CancelledPayload where
  encode p := .ofMembers [
    ("task_id", .int p.taskId), ("retry_count", .int p.retryCount),
    ("should_notify", .bool p.shouldNotify), ("event_type", encode p.eventType),
    ("event_message", .ofOption .str p.eventMessage)]
  decode depth d := do
    let fields ←
      Fields.of? ["task_id", "retry_count", "should_notify", "event_type", "event_message"] depth d
    return { taskId := ← fields.required "task_id" .int64
             retryCount := ← fields.required "retry_count" .int32
             shouldNotify := ← fields.required "should_notify" .bool
             eventType := ← fields.withDefault "event_type" .cancelled Codec.decode
             eventMessage := ← fields.optionalByDefault "event_message" .text }

end CancelledPayload

/-- An event from outside that may trigger workflows. -/
structure UserEventPayload where
  eventId : Identifier
  key : String
  /-- The input of the runs it triggers. -/
  data : Json := .null
  metadata : List (String × String) := []

instance : Codec UserEventPayload where
  encode p := .ofMembers [
    ("event_id", encode p.eventId), ("event_key", .str p.key), ("event_data", p.data),
    ("event_additional_metadata", .ofTexts p.metadata)]
  decode depth d := do
    let fields ←
      Fields.of? ["event_id", "event_key", "event_data", "event_additional_metadata"] depth d
    return { eventId := ← fields.required "event_id" Codec.decode
             key := ← fields.required "event_key" .text
             data := ← fields.withDefault "event_data" .null .json
             metadata := ← fields.withDefault "event_additional_metadata" [] .textMap }

/-- The announcement of an outcome. -/
structure InternalEventPayload where
  timestamp : Instant
  key : String
  data : Json := .null

instance : Codec InternalEventPayload where
  encode p := .ofMembers [
    ("event_timestamp", encode p.timestamp), ("event_key", .str p.key), ("event_data", p.data)]
  decode depth d := do
    let fields ← Fields.of? ["event_timestamp", "event_key", "event_data"] depth d
    return { timestamp := ← fields.required "event_timestamp" Codec.decode
             key := ← fields.required "event_key" .text
             data := ← fields.withDefault "event_data" .null .json }

/-- The order to run a workflow. -/
structure TriggerPayload where
  externalId : ExternalId
  workflowName : String
  data : Json := .null
  metadata : List (String × String) := []
  parentTaskId : Option TaskId := none
  childIndex : Option Int := none
  childKey : Option String := none

namespace TriggerPayload

/-- The same order, given by a task. -/
def asChild (p : TriggerPayload) (parent : TaskId) (index : Int) (key : Option String) :
    TriggerPayload :=
  { p with parentTaskId := some parent, childIndex := some index, childKey := key }

def fieldNames : List String :=
  ["task_external_id", "workflow_name", "data", "additional_metadata", "parent_task_id",
   "child_index", "child_key"]

instance : Codec TriggerPayload where
  encode p := .ofMembers [
    ("task_external_id", encode p.externalId), ("workflow_name", .str p.workflowName),
    ("data", p.data), ("additional_metadata", .ofTexts p.metadata),
    ("parent_task_id", .ofOption .int p.parentTaskId),
    ("child_index", .ofOption .int p.childIndex), ("child_key", .ofOption .str p.childKey)]
  decode depth d := do
    let fields ← Fields.of? fieldNames depth d
    return { externalId := ← fields.required "task_external_id" Codec.decode
             workflowName := ← fields.required "workflow_name" .text
             data := ← fields.withDefault "data" .null .json
             metadata := ← fields.withDefault "additional_metadata" [] .textMap
             parentTaskId := ← fields.optionalByDefault "parent_task_id" .int64
             childIndex := ← fields.optionalByDefault "child_index" .int64
             childKey := ← fields.optionalByDefault "child_key" .text }

end TriggerPayload

/-- The order to a dispatcher to stop an attempt. -/
structure StopPayload where
  taskId : TaskId
  workerId : WorkerId
  retryCount : Int
  deriving DecidableEq, Repr

instance : Codec StopPayload where
  encode p := .ofMembers [
    ("task_id", .int p.taskId), ("worker_id", encode p.workerId), ("retry_count", .int p.retryCount)]
  decode depth d := do
    let fields ← Fields.of? ["task_id", "worker_id", "retry_count"] depth d
    return { taskId := ← fields.required "task_id" .int64
             workerId := ← fields.required "worker_id" Codec.decode
             retryCount := ← fields.required "retry_count" .int32 }

/-- An event of an attempt on its way to the read model. -/
structure MonitoringPayload where
  taskId : TaskId
  retryCount : Int
  workerId : Option WorkerId := none
  /-- The name of the event type; it may be one that nobody knows. -/
  eventType : String
  timestamp : Instant
  /-- An output or an error. -/
  payload : String := ""
  message : Option String := none
  deriving DecidableEq, Repr

namespace MonitoringPayload

def fieldNames : List String :=
  ["task_id", "retry_count", "worker_id", "event_type", "event_timestamp", "event_payload",
   "event_message"]

instance : Codec MonitoringPayload where
  encode p := .ofMembers [
    ("task_id", .int p.taskId), ("retry_count", .int p.retryCount),
    ("worker_id", .ofOption encode p.workerId), ("event_type", .str p.eventType),
    ("event_timestamp", encode p.timestamp), ("event_payload", .str p.payload),
    ("event_message", .ofOption .str p.message)]
  decode depth d := do
    let fields ← Fields.of? fieldNames depth d
    return { taskId := ← fields.required "task_id" .int64
             retryCount := ← fields.required "retry_count" .int32
             workerId := ← fields.optionalByDefault "worker_id" Codec.decode
             eventType := ← fields.required "event_type" .text
             timestamp := ← fields.required "event_timestamp" Codec.decode
             payload := ← fields.withDefault "event_payload" "" .text
             message := ← fields.optionalByDefault "event_message" .text }

end MonitoringPayload

/-- A notice to the scheduler that a queue changed. -/
structure NoticePayload where
  queue : String
  /-- The strategies of the tasks concerned. -/
  strategyIds : List StrategyId := []
  deriving DecidableEq, Repr

namespace NoticePayload

instance : Codec NoticePayload where
  encode p := .ofMembers [("queue", .str p.queue), ("strategy_ids", .ofList .int p.strategyIds)]
  decode depth d := do
    let fields ← Fields.of? ["queue", "strategy_ids"] depth d
    return { queue := ← fields.required "queue" .text
             strategyIds := ← fields.withDefault "strategy_ids" [] (.list .int64) }

def addStrategies (ids : List StrategyId) (p : NoticePayload) : NoticePayload :=
  { p with strategyIds :=
      ids.foldl (fun acc id => if acc.contains id then acc else acc ++ [id]) p.strategyIds }

/-- Adds one entry to the notices, which are in the order of their queues. -/
def merge (queue : String) (ids : List StrategyId) : List NoticePayload → List NoticePayload
  | [] => [addStrategies ids { queue }]
  | p :: rest =>
    if queue < p.queue then addStrategies ids { queue } :: p :: rest
    else if queue == p.queue then addStrategies ids p :: rest
    else p :: merge queue ids rest

/-- One notice for each queue, in the order of the queues, naming each strategy once. -/
def gather (entries : List (String × List StrategyId)) : List NoticePayload :=
  entries.foldl (fun acc e => merge e.1 e.2 acc) []

end NoticePayload

/-! ### Messages -/

namespace Message

def completed (tenant : TenantId) (payload : CompletedPayload) : Message :=
  ofPayloads .taskCompleted false true tenant [payload]

def failed (tenant : TenantId) (payload : FailedPayload) : Message :=
  ofPayloads .taskFailed false true tenant [payload]

def cancelled (tenant : TenantId) (payloads : List CancelledPayload) : Message :=
  ofPayloads .taskCancelled false true tenant payloads

def userEvents (tenant : TenantId) (payloads : List UserEventPayload) : Message :=
  ofPayloads .userEvent false true tenant payloads

def internalEvents (tenant : TenantId) (payloads : List InternalEventPayload) : Message :=
  ofPayloads .internalEvent false true tenant payloads

def triggers (tenant : TenantId) (payloads : List TriggerPayload) : Message :=
  ofPayloads .taskTrigger false true tenant payloads

def createdTasks (tenant : TenantId) (tasks : List Task) : Message :=
  ofPayloads .createdTask false true tenant tasks

def createdDags (tenant : TenantId) (dags : List Dag) : Message :=
  ofPayloads .createdDag false true tenant dags

def monitoring (tenant : TenantId) (payloads : List MonitoringPayload) : Message :=
  ofPayloads .createMonitoringEvent false false tenant payloads

def stops (tenant : TenantId) (payloads : List StopPayload) : Message :=
  ofPayloads .taskCancelled false true tenant payloads

def created (tenant : TenantId) (payloads : List NoticePayload) : Message :=
  ofPayloads .notifyTaskCreated true false tenant payloads

def released (tenant : TenantId) (payloads : List NoticePayload) : Message :=
  ofPayloads .notifyTaskReleased true false tenant payloads

end Message

end WorkflowEngine
