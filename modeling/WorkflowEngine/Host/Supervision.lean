import WorkflowEngine.Ascending
import WorkflowEngine.Bus.Payload
import WorkflowEngine.Host.State

/-!
The supervisor of a partition keeps one manager for each active strategy of the tenants it serves. It
wakes managers up when the scheduler is told of work or of capacity, and announces what came of their
evaluations. Managers that are stopped have to be waited for; how, is left to the caller as `join`.
-/

namespace WorkflowEngine.Host

/-! ### Managers -/

/-- Starts the loops of a manager: one evaluates the strategy, the other watches whether it is in use. -/
def startManager (h : Host) (tenant : TenantId) (strategy : Strategy) (owner : Owner) :
    ManagerId × Host :=
  let id := h.managers.length
  let (evaluator, h) := h.spawn (.evaluate id)
  let (refresher, h) := h.spawn (.refresh id)
  (id, { h with
    managers := h.managers ++ [{ strategy, tenantId := tenant, owner, evaluator, refresher }] })

/-- Orders a manager to stop. -/
def cancelManager (h : Host) (id : ManagerId) : Host :=
  match h.managers[id]? with
  | none => h
  | some m =>
    (h.modifyManager id fun m => { m with cancelled := true, joined := true }).wakeAll
      [m.evaluator, m.refresher]

/-- Asks a manager for an evaluation. -/
def notifyManager (h : Host) (id : ManagerId) : Host :=
  match h.managers[id]? with
  | none => h
  | some m =>
    let (fresh, requests) := m.requests.notify
    let h := h.modifyManager id fun m => { m with requests }
    if fresh then h.wake (.request id) else h

/-! ### Keeping managers -/

def managerFor? (h : Host) (strategy : StrategyId) : Option ManagerId :=
  (h.supervisor.managers.find? (·.1 == strategy)).map (·.2)

/-- The strategies that the supervisor has managers for, ascending. -/
def managedStrategies (h : Host) : List StrategyId := h.supervisor.managers.map (·.1)

/-- The entry belongs to a strategy of the tenant that is not active any more. -/
def isStale (h : Host) (tenant : TenantId) (active : List Strategy) (entry : StrategyId × ManagerId) :
    Bool :=
  !active.any (·.id == entry.1) && (h.managers[entry.2]?).any (·.strategy.tenantId == tenant)

/-- Starts a manager for a strategy, unless there is one. -/
def superviseStrategy (h : Host) (tenant : TenantId) (strategy : Strategy) : Host :=
  if (h.managerFor? strategy.id).isSome then h
  else
    let (id, h) := h.startManager tenant strategy .supervisor
    let managers := Ascending.put (fun a b => decide (a.1 < b.1)) (strategy.id, id) h.supervisor.managers
    { h with supervisor := { h.supervisor with managers } }

/-- Starts and stops managers, so that each active strategy of a tenant has one and no other has. -/
def syncStrategies (join : List ManagerId → Host → Host) (h : Host) (tenant : TenantId) :
    Except Fault Unit × Host :=
  match h.engine.read (·.activeStrategies tenant) with
  | .error f => (.error f, h)
  | .ok active =>
    let (stale, managers) := h.supervisor.managers.partition (h.isStale tenant active)
    let h := { h with supervisor := { h.supervisor with managers } }
    let h := active.foldl (fun h s => h.superviseStrategy tenant s) h
    let stopped := stale.map (·.2)
    (.ok (), join stopped (stopped.foldl cancelManager h))

/-- Does so for some tenants, and gives the faults met. -/
def syncTenants (join : List ManagerId → Host → Host) : List Tenant → Host → List Fault × Host
  | [], h => ([], h)
  | t :: rest, h =>
    let (result, h) := h.syncStrategies join t.id
    let (faults, h) := syncTenants join rest h
    (match result with
      | .ok _ => faults
      | .error f => f :: faults, h)

/-- Does so for all tenants of the partition. -/
def syncAll (join : List ManagerId → Host → Host) (h : Host) : Except Fault Unit × Host :=
  match h.engine.read (·.tenants) with
  | .error f => (.error f, h)
  | .ok tenants =>
    let (faults, h) :=
      syncTenants join (tenants.filter (·.schedulerPartition == some h.partition)) h
    (Fault.ofBatch faults, h)

/-! ### Requests and announcements -/

/-- Asks the managers of strategies for evaluations; those that are missing are started first, as far
as their strategies are active. -/
def notifyStrategies (join : List ManagerId → Host → Host) (h : Host) (tenant : TenantId)
    (strategies : List StrategyId) : Host :=
  let h := if strategies.all fun s => (h.managerFor? s).isSome then h
    else (h.syncStrategies join tenant).2
  (strategies.filterMap h.managerFor?).foldl notifyManager h

/-- Announces what came of an evaluation. -/
def announce (join : List ManagerId → Host → Host) (h : Host) (e : Evaluation) :
    Except Fault Unit × Host :=
  let (faults, h) := h.act (·.orderCancellations e.tenantId e.summary.cancelled)
  let h := h.notifyStrategies join e.tenantId e.summary.nextStrategyIds
  let (more, h) := h.act (·.announceQueued e.tenantId e.summary.queued)
  (Fault.ofBatch (faults ++ more), h)

/-- The strategies that notices name, ascending. -/
def noticedStrategies (payloads : List ByteArray) : List StrategyId :=
  Ascending.ofList (fun a b => decide (a < b))
    ((decodePayloads NoticePayload payloads).flatMap (·.strategyIds))

/-- Handles a batch of notices to the scheduler. Messages of other kinds are none of its business. -/
def handleNotices (join : List ManagerId → Host → Host) (h : Host) (tenant : TenantId)
    (kindName : String) (payloads : List ByteArray) : Except Fault Unit × Host :=
  match MessageKind.parse kindName with
  | .error f => (.error f, h)
  | .ok .notifyTaskCreated | .ok .notifyTaskReleased =>
    (.ok (), h.notifyStrategies join tenant (noticedStrategies payloads))
  | .ok _ => (.ok (), h)

end WorkflowEngine.Host
