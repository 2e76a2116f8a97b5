import WorkflowEngine.Effect.Posting
import WorkflowEngine.Store.Creation

/-!
What can be asked about tasks and how each request is served. A request holds the payloads of one
message that could be decoded; the others are dropped.
-/

namespace WorkflowEngine

inductive Request where
  | complete (payloads : List CompletedPayload)
  | fail (payloads : List FailedPayload)
  | cancel (payloads : List CancelledPayload)
  | userEvents (payloads : List UserEventPayload)
  | trigger (payloads : List TriggerPayload)
  | internalEvents (payloads : List InternalEventPayload)

namespace Request

/-- The request that a message makes. Messages of the other kinds ask for nothing here. -/
def ofPayloads (kind : MessageKind) (payloads : List ByteArray) : Except Fault Request :=
  match kind with
  | .taskCompleted => .ok (.complete (decodePayloads _ payloads))
  | .taskFailed => .ok (.fail (decodePayloads _ payloads))
  | .taskCancelled => .ok (.cancel (decodePayloads _ payloads))
  | .userEvent => .ok (.userEvents (decodePayloads _ payloads))
  | .taskTrigger => .ok (.trigger (decodePayloads _ payloads))
  | .internalEvent => .ok (.internalEvents (decodePayloads _ payloads))
  | other => .error (.unknownMessageKind other.name)

def isEmpty : Request → Bool
  | complete ps => ps.isEmpty
  | fail ps => ps.isEmpty
  | cancel ps => ps.isEmpty
  | userEvents ps => ps.isEmpty
  | trigger ps => ps.isEmpty
  | internalEvents ps => ps.isEmpty

/-- How many identifiers are drawn before the request is served: one for each announcement. -/
def draws : Request → Nat
  | internalEvents ps => ps.length
  | _ => 0

/-! ### Attempts -/

/-- Completes attempts and announces them. -/
def serveComplete (s : Store) (ids : IdSource) (now : Instant) (tenant : TenantId)
    (payloads : List CompletedPayload) : Effect :=
  let (released, s) := s.complete tenant (payloads.map (·.attempt))
  let outputOf (a : Attempt) : Json :=
    ((payloads.findRev? (·.attempt == a)).map (·.output)).getD .null
  let monitoring := released.map fun t =>
    { MonitoringPayload.ofAttempt now t.attempt .finished with
      workerId := t.workerId, payload := (outputOf t.attempt).text }
  let internal := released.map fun t =>
    InternalEventPayload.completed now t.externalId ⟨t.stepReadableId, outputOf t.attempt⟩
  { store := s
    ids
    postings := Posting.internalEvents tenant internal ++ Posting.monitoring tenant monitoring ++
      Posting.released s tenant released
    counts := [(.transitions .completed, released.length)] }

/-- Fails attempts, which wait again while they have retries left. -/
def serveFail (s : Store) (ids : IdSource) (now : Instant) (tenant : TenantId)
    (payloads : List FailedPayload) : Except Fault Effect := do
  let failures := payloads.map fun p => Failure.mk p.attempt p.isAppError p.errorMessage
  let (_, s, postings, counts) ← failAndAnnounce s now tenant failures
  return { store := s, ids, postings, counts }

/-- Cancels attempts, announces them, and has those stopped whose payload asks for it. -/
def serveCancel (s : Store) (ids : IdSource) (now : Instant) (tenant : TenantId)
    (payloads : List CancelledPayload) : Effect :=
  let (released, s) := s.cancel tenant (payloads.map (·.attempt))
  let orderFor (a : Attempt) : Option CancelledPayload := payloads.findRev? (·.attempt == a)
  let running := released.filterMap fun t => do
    let order ← orderFor t.attempt
    guard order.shouldNotify
    return (t.attempt, ← t.workerId)
  let monitoring := released.map fun t =>
    let order := orderFor t.attempt
    { MonitoringPayload.ofAttempt now t.attempt ((order.map (·.eventType)).getD .cancelled) with
      workerId := t.workerId, message := order.bind (·.eventMessage) }
  let internal := released.map fun t =>
    InternalEventPayload.cancelled now t.externalId t.stepReadableId
  { store := s
    ids
    postings := Posting.stops s tenant running ++ Posting.internalEvents tenant internal ++
      Posting.monitoring tenant monitoring ++ Posting.released s tenant released
    counts := [(.transitions .cancelled, released.length)] }

/-! ### Creation -/

def ofCreation (c : Creation) (now : Instant) (tenant : TenantId) : Effect :=
  { store := c.store, ids := c.ids, postings := announceCreated c.store now tenant c.tasks c.dags }

def serveUserEvents (s : Store) (ids : IdSource) (now : Instant) (tenant : TenantId)
    (payloads : List UserEventPayload) : Except Fault Effect := do
  let events := payloads.map fun p => UserEvent.mk p.eventId p.key p.data p.metadata
  return ofCreation (← s.triggerEvents ids now tenant events) now tenant

def serveTrigger (s : Store) (ids : IdSource) (now : Instant) (tenant : TenantId)
    (payloads : List TriggerPayload) : Except Fault Effect := do
  let requests := payloads.map fun p =>
    RunRequest.mk p.externalId p.workflowName p.data p.metadata p.parentTaskId p.childIndex p.childKey
  return ofCreation (← s.triggerRuns ids now tenant requests) now tenant

/-- Offers announcements to the steps that wait. -/
def serveInternalEvents (s : Store) (ids : IdSource) (now : Instant) (tenant : TenantId)
    (payloads : List InternalEventPayload) : Except Fault Effect := do
  let events := payloads.map fun p => OutcomeEvent.mk p.timestamp p.key p.data
  return ofCreation (← s.matchOutcomes ids now tenant events) now tenant

/-- Serves a request for a tenant. -/
def serve (s : Store) (ids : IdSource) (now : Instant) (tenant : TenantId) :
    Request → Except Fault Effect
  | complete ps => .ok (serveComplete s ids now tenant ps)
  | fail ps => serveFail s ids now tenant ps
  | cancel ps => .ok (serveCancel s ids now tenant ps)
  | userEvents ps => serveUserEvents s ids now tenant ps
  | trigger ps => serveTrigger s ids now tenant ps
  | internalEvents ps => serveInternalEvents s ids now tenant ps

end Request

end WorkflowEngine
