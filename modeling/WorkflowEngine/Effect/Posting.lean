import WorkflowEngine.Bus.Payload
import WorkflowEngine.Metrics
import WorkflowEngine.Store.Lifecycle
import WorkflowEngine.Store.Registry

/-!
What follows from a change of the store: the messages that announce it. Announcing never fails the
change; messages that cannot be sent are counted.
-/

namespace WorkflowEngine

/-- A message and where it goes. -/
structure Post where
  queue : QueueName
  message : Message

/-- A message to send, or why it has no address. -/
abbrev Posting := Except Fault Post

/-- What a request comes to: the store behind it, what to send and what to count. -/
structure Effect where
  store : Store
  ids : IdSource
  postings : List Posting := []
  counts : List (Counter × Nat) := []

namespace Posting

/-- A message with at least one payload. -/
def ofPayloads {α : Type} (queue : QueueName) (message : List α → Message) : List α → List Posting
  | [] => []
  | payloads => [.ok ⟨queue, message payloads⟩]

def internalEvents (tenant : TenantId) : List InternalEventPayload → List Posting :=
  ofPayloads .tasks (Message.internalEvents tenant)

def monitoring (tenant : TenantId) : List MonitoringPayload → List Posting :=
  ofPayloads .readModel (Message.monitoring tenant)

/-- A message to the scheduler of the tenant's partition. A tenant without one is passed over; an
unknown tenant has no address. -/
def notice (s : Store) (tenant : TenantId) (message : List NoticePayload → Message)
    (payloads : List NoticePayload) : List Posting :=
  if payloads.isEmpty then []
  else match s.tenant? tenant with
    | none => [.error (.resourceNotFound "tenant" tenant.text)]
    | some t =>
      match t.schedulerPartition with
      | none => []
      | some partition => [.ok ⟨.scheduler partition, message payloads⟩]

/-- Tells the scheduler that work came into queues. -/
def created (s : Store) (tenant : TenantId) (entries : List (String × List StrategyId)) :
    List Posting :=
  notice s tenant (Message.created tenant) (NoticePayload.gather entries)

/-- Tells the scheduler that capacity became free. -/
def released (s : Store) (tenant : TenantId) (tasks : List ReleasedTask) : List Posting :=
  notice s tenant (Message.released tenant)
    (NoticePayload.gather (tasks.map fun t => (t.queue, t.concurrencyStrategyIds)))

/-- Adds an order to those of its dispatcher. -/
def addStop (dispatcher : DispatcherId) (p : StopPayload) :
    List (DispatcherId × List StopPayload) → List (DispatcherId × List StopPayload)
  | [] => [(dispatcher, [p])]
  | (d, ps) :: rest =>
    if d == dispatcher then (d, ps ++ [p]) :: rest else (d, ps) :: addStop dispatcher p rest

/-- Tells the dispatchers of workers to stop attempts, with one message for each dispatcher. Workers
that are unknown to the tenant are passed over. -/
def stops (s : Store) (tenant : TenantId) (attempts : List (Attempt × WorkerId)) : List Posting :=
  let routed := attempts.filterMap fun (a, id) => do
    let w ← (s.worker? id).filter (·.tenantId == tenant)
    return (w.dispatcherId, ({ taskId := a.id, workerId := id, retryCount := a.retryCount } : StopPayload))
  (routed.foldl (fun acc (d, p) => addStop d p acc) []).map fun (d, ps) =>
    .ok ⟨.dispatcher d, Message.stops tenant ps⟩

end Posting

/-! ### Announcements -/

namespace InternalEventPayload

def completed (now : Instant) (task : ExternalId) (data : CompletedData) : InternalEventPayload :=
  ⟨now, Outcome.completed.key task, data.toJson⟩

def failed (now : Instant) (task : ExternalId) (step error : String) : InternalEventPayload :=
  ⟨now, Outcome.failed.key task, (FailedData.mk step error).toJson⟩

def cancelled (now : Instant) (task : ExternalId) (step : String) : InternalEventPayload :=
  ⟨now, Outcome.cancelled.key task, (FailedData.cancelled step).toJson⟩

end InternalEventPayload

/-- An event of an attempt. -/
def MonitoringPayload.ofAttempt (now : Instant) (a : Attempt) (type : EventType) :
    MonitoringPayload :=
  { taskId := a.id, retryCount := a.retryCount, eventType := type.name, timestamp := now }

/-- The events of a task that was created in a state that ends it: for the engine itself and for the
read model. -/
def endedAtCreation (now : Instant) (t : Task) : Option (InternalEventPayload × MonitoringPayload) :=
  let reason := t.initialStateReason.getD ""
  let event (type : EventType) : MonitoringPayload :=
    { MonitoringPayload.ofAttempt now t.attempt type with message := some reason }
  match t.initialState with
  | .queued => none
  | .failed =>
    some (.failed now t.externalId t.stepReadableId reason, { event .failed with payload := reason })
  | .cancelled => some (.cancelled now t.externalId t.stepReadableId, event .cancelled)
  | .skipped => some (.completed now t.externalId (.skipped t.stepReadableId), event .skipped)

/-- Announces new tasks and runs: to the read model all of them, to the scheduler those that wait,
and to the steps that wait those that ended at once. -/
def announceCreated (s : Store) (now : Instant) (tenant : TenantId) (tasks : List Task)
    (dags : List Dag) : List Posting :=
  let ended := tasks.filterMap (endedAtCreation now)
  let waiting := tasks.filter (·.initialState == .queued)
  Posting.ofPayloads .readModel (Message.createdTasks tenant) tasks ++
    Posting.ofPayloads .readModel (Message.createdDags tenant) dags ++
    Posting.created s tenant (waiting.map fun t => (t.queue, t.concurrencyStrategyIds)) ++
    Posting.internalEvents tenant (ended.map (·.1)) ++
    Posting.monitoring tenant (ended.map (·.2))

/-- Fails attempts and announces what came of it: terminal failures to all, and retries to the read
model and the scheduler. -/
def failAndAnnounce (s : Store) (now : Instant) (tenant : TenantId) (failures : List Failure) :
    Except Fault (FailureResult × Store × List Posting × List (Counter × Nat)) := do
  let (result, s) ← s.fail now tenant failures
  let messageOf (a : Attempt) : String := ((failures.findRev? (·.task == a)).map (·.message)).getD ""
  let failed := result.released.map fun t =>
    let error := messageOf t.attempt
    { MonitoringPayload.ofAttempt now t.attempt .failed with
      workerId := t.workerId, payload := error, message := some error }
  let retried := result.retried.map fun t =>
    { MonitoringPayload.ofAttempt now ⟨t.id, t.retryCount⟩ .queued with
      message := some ("retrying after failure: " ++ messageOf t.failedAttempt) }
  let internal := result.released.map fun t =>
    InternalEventPayload.failed now t.externalId t.stepReadableId (messageOf t.attempt)
  let postings :=
    Posting.internalEvents tenant internal ++ Posting.monitoring tenant (failed ++ retried) ++
      Posting.released s tenant result.released ++
      Posting.created s tenant (result.retried.map fun t => (t.queue, t.concurrencyStrategyIds))
  return (result, s, postings,
    [(.transitions .failed, result.released.length), (.transitions .queued, result.retried.length)])

end WorkflowEngine
