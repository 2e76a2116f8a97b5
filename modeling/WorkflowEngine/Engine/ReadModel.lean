import WorkflowEngine.Engine.State

/-!
The read model at work: rows and events from the bus, passes over what is pending, and partitions.
-/

namespace WorkflowEngine

/-- Operations of the read model that the engine may carry out. -/
inductive ReadModelOp where
  | createTasks
  | createDags
  | insertEvents
  | foldTasks
  | foldDags
  | maintain
  deriving DecidableEq, Repr

def ReadModelOp.name : ReadModelOp → String
  | .createTasks => "create_tasks"
  | .createDags => "create_dags"
  | .insertEvents => "insert_task_events"
  | .foldTasks => "update_task_statuses"
  | .foldDags => "update_dag_statuses"
  | .maintain => "update_table_partitions"

namespace Engine

/-- Changes the read model, unless the operation fails at present. -/
def writeModel {α : Type} (e : Engine) (op : ReadModelOp)
    (f : ReadModel → Except Fault (α × ReadModel)) : Except Fault α × Engine :=
  if e.failing.contains op.name then
    (.error (.ofStorage ("injected failure in " ++ op.name)), e)
  else
    let (result, readModel) := e.readModel.write f
    (result, { e with readModel })

/-! ### Ingestion -/

def ingestTasks (e : Engine) (tenant : TenantId) (tasks : List Task) : Except Fault Unit × Engine :=
  if tasks.isEmpty then (.ok (), e)
  else e.writeModel .createTasks fun m => do return ((), ← m.createTasks tenant tasks)

def ingestDags (e : Engine) (tenant : TenantId) (dags : List Dag) : Except Fault Unit × Engine :=
  if dags.isEmpty then (.ok (), e)
  else e.writeModel .createDags fun m => do return ((), ← m.createDags tenant dags)

/-- Writes the events that were not written before, and tells how many. -/
def writeEvents (e : Engine) (now : Instant) (tenant : TenantId) (events : List TaskEvent) :
    Except Fault Nat × Engine :=
  let (fresh, cache) := e.cache.unseen events
  let e := { e with cache }.count .dedupHits (events.length - fresh.length)
  if fresh.isEmpty then (.ok 0, e)
  else
    match e.writeModel .insertEvents fun m => .ok ((), m.insertEvents now tenant fresh) with
    | (.ok _, e) => (.ok fresh.length, { e with cache := e.cache.remember fresh })
    | (.error f, e) => (.error f, e)

/-- The event of a monitoring payload: a fault for an unknown type, none for an unknown task. -/
def taskEvent (metas : List TaskMeta) (tenant : TenantId) (p : MonitoringPayload) :
    Except Fault (Option TaskEvent) := do
  let eventType ← EventType.parse p.eventType
  return (metas.find? (·.id == p.taskId)).map fun m =>
    { tenantId := tenant
      taskId := p.taskId
      taskInsertedAt := m.insertedAt
      retryCount := p.retryCount
      eventType
      timestamp := p.timestamp
      workerId := p.workerId
      payload := p.payload
      message := p.message }

/-- The events of payloads, and the faults of those of unknown types. -/
def taskEvents (metas : List TaskMeta) (tenant : TenantId) :
    List MonitoringPayload → List TaskEvent × List Fault
  | [] => ([], [])
  | p :: rest =>
    let (events, faults) := taskEvents metas tenant rest
    match taskEvent metas tenant p with
    | .ok (some e) => (e :: events, faults)
    | .ok none => (events, faults)
    | .error f => (events, f :: faults)

/-- Writes the events of monitoring payloads; unknown types are reported afterwards. -/
def ingestMonitoring (e : Engine) (now : Instant) (tenant : TenantId)
    (payloads : List MonitoringPayload) : Except Fault Unit × Engine :=
  if payloads.isEmpty then (.ok (), e)
  else
    match e.read (·.taskMetas tenant (payloads.map (·.taskId))) with
    | .error f => (.error f, e)
    | .ok metas =>
      let (events, faults) := taskEvents metas tenant payloads
      match e.writeEvents now tenant events with
      | (.ok _, e) => (Fault.ofBatch faults, e)
      | (.error f, e) => (.error f, e)

/-- Takes in a batch of payloads of one kind. -/
def ingest (e : Engine) (now : Instant) (tenant : TenantId) (kind : MessageKind)
    (payloads : List ByteArray) : Except Fault Unit × Engine :=
  match kind with
  | .createdTask => e.ingestTasks tenant (decodePayloads _ payloads)
  | .createdDag => e.ingestDags tenant (decodePayloads _ payloads)
  | .createMonitoringEvent => e.ingestMonitoring now tenant (decodePayloads _ payloads)
  | other => (.error (.unknownMessageKind other.name), e)

/-- Handles a batch of payloads of one kind for a tenant. -/
def handleReadModel (e : Engine) (now : Instant) (tenant : TenantId) (kindName : String)
    (payloads : List ByteArray) : Except Fault Unit × Engine :=
  match MessageKind.parse kindName with
  | .error f => (.error f, e)
  | .ok kind =>
    let (result, e) := e.ingest now tenant kind payloads
    let (result, e) := e.recovered kindName result
    (result, e.countHandled kind result)

/-! ### Reconciliation -/

/-- A pass over one share of tasks or of runs. -/
def foldShare (e : Engine) (now : Instant) (tenant : TenantId) (t : Table) (share : Nat) :
    Except Fault Nat × Engine :=
  let limit := e.settings.reconcileBatchLimit
  match t with
  | .dags => e.writeModel .foldDags fun m => m.foldDags tenant share limit now
  | _ => e.writeModel .foldTasks fun m => m.foldTasks tenant share limit now

/-- Passes over the given shares, with the result of each. A panic ends the row. -/
def foldShares (e : Engine) (now : Instant) (tenant : TenantId) (t : Table) :
    List Nat → List (Except Fault Nat) × Engine
  | [] => ([], e)
  | share :: rest =>
    match e.foldShare now tenant t share with
    | (.error (.panic text), e) => ([.error (.panic text)], e)
    | (result, e) =>
      let (results, e) := e.foldShares now tenant t rest
      (result :: results, e)

def faultOf? {α : Type} : Except Fault α → Option Fault
  | .error f => some f
  | .ok _ => none

/-- Folds one table over all shares, and tells whether some share reached the limit. -/
def foldTable (e : Engine) (now : Instant) (tenant : TenantId) (t : Table) :
    Except Fault Bool × Engine :=
  let (results, e) := e.foldShares now tenant t (List.range e.shares)
  match results.findSome? (fun | .error (.panic text) => some text | _ => none) with
  | some text => (.error (.panic text), e)
  | none =>
    let sizes := results.filterMap fun | .ok n => some n | .error _ => none
    let limit := e.settings.reconcileBatchLimit
    let metrics := sizes.foldl (fun ms n => ms.addBatch t n (decide (limit ≤ n))) e.metrics
    ((Fault.ofBatch (results.filterMap faultOf?)).map fun _ => sizes.any (limit ≤ ·), { e with metrics })

/-- One pass for a tenant: tasks first, then runs. Tells whether a share reached the limit. -/
def reconcileTenant (e : Engine) (now : Instant) (tenant : TenantId) : Except Fault Bool × Engine :=
  match e.foldTable now tenant .tasks with
  | (.error f, e) => (.error f, e)
  | (.ok tasksFull, e) =>
    match e.foldTable now tenant .dags with
    | (.error f, e) => (.error f, e)
    | (.ok dagsFull, e) => (.ok (tasksFull || dagsFull), e)

/-- Repeats the pass of a tenant while a share reaches the limit, but no more than a number of
times. -/
def reconcileRepeatedly (now : Instant) (tenant : TenantId) :
    Nat → Engine → Option Fault × Engine
  | 0, e => (none, e)
  | passes + 1, e =>
    match e.reconcileTenant now tenant with
    | (.ok true, e) => reconcileRepeatedly now tenant passes e
    | (.ok false, e) => (none, e)
    | (.error f, e) => (some f, e)

/-- More passes than a tenant can need: every full pass takes an event or an update that no later pass
takes, and events add at most one update each. -/
def passBound (e : Engine) : Nat :=
  match e.readModel with
  | .sound m => 2 * m.pendingEvents.length + m.pendingDags.length + 1
  | .poisoned => 1

/-- Reconciles tenants one after the other, and gives the faults met. A panic ends the row. -/
def reconcileTenants (now : Instant) (once : Bool) :
    List TenantId → Engine → List Fault × Engine
  | [], e => ([], e)
  | tenant :: rest, e =>
    match reconcileRepeatedly now tenant (if once then 1 else e.passBound) e with
    | (none, e) => reconcileTenants now once rest e
    | (some (.panic text), e) => ([.panic text], e)
    | (some f, e) =>
      let (faults, e) := reconcileTenants now once rest e
      (f :: faults, e)

/-- Reconciles every tenant until nothing that is due is left, or with a single pass each. -/
def reconcileAll (e : Engine) (now : Instant) (once : Bool) : Except Fault Unit × Engine :=
  match e.read (·.tenants) with
  | .error f => (.error f, e)
  | .ok tenants =>
    let (faults, e) := reconcileTenants now once (tenants.map (·.id)) e
    match faults.find? (fun | .panic _ => true | _ => false) with
    | some f => (.error f, e)
    | none => (Fault.ofBatch faults, e)

/-! ### Partitions -/

/-- The table that a partition belongs to by its name. -/
def tableOfPartition (name : String) : String :=
  ((Table.all.find? fun t => t.name.isPrefixOf name).map Table.name).getD "unknown"

/-- Creates and drops partitions, and counts them. -/
def maintainModel (e : Engine) (now : Instant) : Except Fault Maintenance × Engine :=
  match e.writeModel .maintain fun m => .ok (m.maintain now) with
  | (.error f, e) => (.error f, e)
  | (.ok done, e) =>
    let e := done.created.foldl (fun e n => e.count (.partitions (tableOfPartition n) "created") 1) e
    let e := done.dropped.foldl (fun e n => e.count (.partitions (tableOfPartition n) "dropped") 1) e
    (.ok done, e)

end Engine

end WorkflowEngine
