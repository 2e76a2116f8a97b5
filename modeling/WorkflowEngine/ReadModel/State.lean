import WorkflowEngine.Ascending
import WorkflowEngine.ReadModel.Fold
import WorkflowEngine.ReadModel.Partition

/-!
The read model: rows of tasks and runs, the permanent log of events, and what waits to be folded.
An event is appended to the log and waits in the share of its task; a pass over a share folds what is
due into the rows. A run whose tasks changed waits in its own share for its status to be folded.
-/

namespace WorkflowEngine

/-- A run whose status may have changed. -/
structure PendingDag where
  tenantId : TenantId
  dagId : DagId
  requeueAfter : Instant
  requeueRetries : Int
  deriving DecidableEq, Repr

/-- The days that each table has a part for, ascending. -/
structure TableDays where
  tasks : List Date := []
  dags : List Date := []
  runs : List Date := []
  deriving DecidableEq, Repr

namespace TableDays

def get (d : TableDays) : Table → List Date
  | .tasks => d.tasks
  | .dags => d.dags
  | .runs => d.runs

def set (d : TableDays) (t : Table) (days : List Date) : TableDays :=
  match t with
  | .tasks => { d with tasks := days }
  | .dags => { d with dags := days }
  | .runs => { d with runs := days }

end TableDays

/-- What a pass of partition maintenance changed. -/
structure Maintenance where
  created : List String := []
  dropped : List String := []
  deriving DecidableEq, Repr

def Maintenance.toJson (m : Maintenance) : Json := .ofMembers [
  ("created", .ofList .str m.created), ("dropped", .ofList .str m.dropped)]

/-- Which tasks to list. -/
structure TaskQuery where
  createdAfter : Instant
  /-- No statuses mean all. -/
  statuses : List Status := []
  /-- No workflows mean all. -/
  workflowIds : List WorkflowId := []
  workerId : Option WorkerId := none
  finishedBefore : Option Instant := none
  metadata : List (String × String) := []
  limit : Nat := 50
  offset : Nat := 0
  deriving DecidableEq, Repr

def TaskQuery.effectiveStatuses (q : TaskQuery) : List Status :=
  if q.statuses.isEmpty then Status.all else q.statuses

structure ReadModel where
  partitionCount : Nat := 4
  retentionDays : Nat := 7
  /-- Ascending by id. -/
  tasks : List TaskRow := []
  taskIndex : List (ExternalId × TaskId) := []
  /-- When the tasks that have ended did so. -/
  finishedAt : List (TaskId × Instant) := []
  /-- Ascending by id. -/
  dags : List DagRow := []
  dagIndex : List (ExternalId × DagId) := []
  events : List TaskEvent := []
  /-- Events to be folded, with the share of each, in the order of their arrival. -/
  pendingEvents : List (Nat × Pending) := []
  pendingDags : List (Nat × PendingDag) := []
  days : TableDays := {}

/-- An index with one value for a key. -/
def putKey {κ α : Type} [DecidableEq κ] (key : κ) (value : α) (index : List (κ × α)) : List (κ × α) :=
  (key, value) :: index.filter (·.1 != key)

def eraseKey {κ α : Type} [DecidableEq κ] (key : κ) (index : List (κ × α)) : List (κ × α) :=
  index.filter (·.1 != key)

def findKey? {κ α : Type} [DecidableEq κ] (key : κ) (index : List (κ × α)) : Option α :=
  (index.find? (·.1 == key)).map (·.2)

namespace ReadModel

instance : Inhabited ReadModel := ⟨{}⟩

/-- An empty read model. -/
def ofLimits (partitions retentionDays : Nat) : ReadModel :=
  { partitionCount := max partitions 1, retentionDays }

def task? (m : ReadModel) (id : TaskId) : Option TaskRow := m.tasks.find? (·.id == id)

def dag? (m : ReadModel) (id : DagId) : Option DagRow := m.dags.find? (·.id == id)

def share (m : ReadModel) (id : Int) : Nat := hashPartition id m.partitionCount

/-! ### Rows -/

def requirePartition (m : ReadModel) (t : Table) (moment : Instant) : Except Fault Unit :=
  if (m.days.get t).contains moment.date then .ok () else .error (.partitionMissing t.name moment.date)

/-- Adds the row of a task, unless there is one. -/
def addTask (m : ReadModel) (t : Task) : ReadModel :=
  if (m.task? t.id).isSome then m
  else { m with
    taskIndex := putKey t.externalId t.id m.taskIndex
    tasks := Ascending.put (fun a b => decide (a.id < b.id)) (.ofTask t) m.tasks }

/-- Adds the rows of the tenant's tasks. Every task given needs a part of the tables for its day. -/
def createTasks (m : ReadModel) (tenant : TenantId) (tasks : List Task) : Except Fault ReadModel := do
  tasks.forM fun t => do
    m.requirePartition .tasks t.insertedAt
    m.requirePartition .runs t.insertedAt
  return (tasks.filter (·.tenantId == tenant)).foldl addTask m

/-- Adds the row of a run, unless there is one. -/
def addDag (m : ReadModel) (d : Dag) : ReadModel :=
  if (m.dag? d.id).isSome then m
  else { m with
    dagIndex := putKey d.externalId d.id m.dagIndex
    dags := Ascending.put (fun a b => decide (a.id < b.id)) (.ofDag d) m.dags }

def createDags (m : ReadModel) (tenant : TenantId) (dags : List Dag) : Except Fault ReadModel := do
  dags.forM fun d => do
    m.requirePartition .dags d.insertedAt
    m.requirePartition .runs d.insertedAt
  return (dags.filter (·.tenantId == tenant)).foldl addDag m

/-! ### Events -/

/-- Appends the tenant's events to the log and queues them. -/
def insertEvents (m : ReadModel) (now : Instant) (tenant : TenantId) (events : List TaskEvent) :
    ReadModel :=
  let own := events.filter (·.tenantId == tenant)
  { m with
    events := m.events ++ own
    pendingEvents := m.pendingEvents ++ own.map fun e => (m.share e.taskId, .ofEvent e now) }

/-- Takes the first elements that satisfy a condition, up to a limit, out of a list. -/
def takeDue {α : Type} (due : α → Bool) : Nat → List α → List α × List α
  | _, [] => ([], [])
  | 0, l => ([], l)
  | limit + 1, a :: rest =>
    if due a then
      let (taken, kept) := takeDue due limit rest
      (a :: taken, kept)
    else
      let (taken, kept) := takeDue due (limit + 1) rest
      (taken, a :: kept)

/-- A fresh event is always due; one that was put back waits for its delay. -/
def eventDue (tenant : TenantId) (share : Nat) (now : Instant) (p : Nat × Pending) : Bool :=
  p.1 == share && p.2.tenantId == tenant &&
    (p.2.requeueRetries == 0 || decide (p.2.requeueAfter ≤ now))

/-- The row with the candidate applied. -/
def applyTo (row : TaskRow) (f : Folded) : TaskRow :=
  { row with
    status := f.status
    latestRetryCount := f.retryCount
    latestWorkerId := f.workerId <|> row.latestWorkerId }

/-- The row that a candidate replaces, if it may. -/
def target? (m : ReadModel) (f : Folded) : Option TaskRow :=
  (m.task? f.taskId).filter fun row =>
    shouldApply row.latestRetryCount row.status f.retryCount f.status

/-- Applies a candidate, and tells which run has changed by it. -/
def applyFolded (m : ReadModel) (f : Folded) : Option DagId × ReadModel :=
  match m.target? f with
  | none => (none, m)
  | some row =>
    let row := applyTo row f
    (row.dagId, { m with
      tasks := m.tasks.map fun r => if r.id == row.id then row else r
      finishedAt :=
        if f.status.isTerminal then putKey row.id f.timestamp m.finishedAt
        else eraseKey row.id m.finishedAt })

/-- Applies candidates in order; the runs that changed are given in ascending order. -/
def applyAll (m : ReadModel) : List Folded → List DagId × ReadModel
  | [] => ([], m)
  | f :: rest =>
    let (changed, m) := m.applyFolded f
    let (others, m) := m.applyAll rest
    (match changed with
      | some id => Ascending.put (fun a b => decide (a < b)) id others
      | none => others, m)

/-- Puts events back whose task has no row. -/
def putBack (m : ReadModel) (share : Nat) (now : Instant) (batch : List Pending) :
    Except Fault ReadModel := do
  let again ← (batch.filter fun p => (m.task? p.taskId).isNone).filterMapM (·.requeued now)
  return { m with pendingEvents := m.pendingEvents ++ again.map (share, ·) }

/-- Queues a run, unless a fresh update for it waits. -/
def queueDag (m : ReadModel) (tenant : TenantId) (now : Instant) (id : DagId) : ReadModel :=
  if m.pendingDags.any fun (_, d) => d.dagId == id && d.requeueRetries == 0 then m
  else { m with pendingDags := m.pendingDags ++
    [(m.share id, { tenantId := tenant, dagId := id, requeueAfter := now, requeueRetries := 0 })] }

/-- A pass over one share of the events, up to a limit; tells how many were taken. -/
def foldTasks (m : ReadModel) (tenant : TenantId) (share limit : Nat) (now : Instant) :
    Except Fault (Nat × ReadModel) := do
  let (taken, kept) := takeDue (eventDue tenant share now) limit m.pendingEvents
  let batch := taken.map (·.2)
  let (changed, m) := { m with pendingEvents := kept }.applyAll (foldPending batch)
  let m ← m.putBack share now batch
  return (batch.length, changed.foldl (fun m id => m.queueDag tenant now id) m)

/-! ### Runs -/

def dagDue (tenant : TenantId) (share : Nat) (now : Instant) (p : Nat × PendingDag) : Bool :=
  p.1 == share && p.2.tenantId == tenant && decide (p.2.requeueAfter ≤ now)

/-- The statuses of the tasks of a run. -/
def dagStatuses (m : ReadModel) (id : DagId) : List Status :=
  (m.tasks.filter (·.dagId == some id)).map (·.status)

/-- Folds the status of a run; it only ever rises. -/
def refreshDag (m : ReadModel) (row : DagRow) : ReadModel :=
  let candidate := foldDagStatus row.totalTasks (m.dagStatuses row.id)
  if candidate.outranks row.status then
    { m with dags := m.dags.map fun r => if r.id == row.id then { r with status := candidate } else r }
  else m

/-- Folds one update, or puts it back if the run has no row. -/
def foldDag (m : ReadModel) (share : Nat) (now : Instant) (p : PendingDag) : Except Fault ReadModel :=
  match m.dag? p.dagId with
  | some row => .ok (m.refreshDag row)
  | none =>
    if p.requeueRetries < maxRequeues then do
      let after ← Task.deadline now (requeueDelay p.requeueRetries)
      let again := { p with requeueAfter := after, requeueRetries := p.requeueRetries + 1 }
      return { m with pendingDags := m.pendingDags ++ [(share, again)] }
    else .ok m

/-- The first update of each run. -/
def firstUpdates : List DagId → List PendingDag → List PendingDag
  | _, [] => []
  | seen, p :: rest =>
    if seen.contains p.dagId then firstUpdates seen rest
    else p :: firstUpdates (p.dagId :: seen) rest

/-- A pass over one share of the runs, up to a limit; tells how many updates were taken. -/
def foldDags (m : ReadModel) (tenant : TenantId) (share limit : Nat) (now : Instant) :
    Except Fault (Nat × ReadModel) := do
  let (taken, kept) := takeDue (dagDue tenant share now) limit m.pendingDags
  let batch := taken.map (·.2)
  let m ← (firstUpdates [] batch).foldlM (fun m p => m.foldDag share now p) { m with pendingDags := kept }
  return (batch.length, m)

/-! ### Partitions -/

def attachPartition (m : ReadModel) (t : Table) (d : Date) : ReadModel :=
  { m with days := m.days.set t (insertDate d (m.days.get t)) }

/-- Removes the task rows of some days. -/
def dropTasks (m : ReadModel) (days : List Date) : ReadModel :=
  let gone := m.tasks.filter fun t => days.contains t.insertedAt.date
  { m with
    tasks := m.tasks.filter fun t => !days.contains t.insertedAt.date
    taskIndex := m.taskIndex.filter fun e => !gone.any (·.externalId == e.1)
    finishedAt := m.finishedAt.filter fun e => !gone.any (·.id == e.1) }

/-- Removes the run rows of some days. -/
def dropDags (m : ReadModel) (days : List Date) : ReadModel :=
  let gone := m.dags.filter fun d => days.contains d.insertedAt.date
  { m with
    dags := m.dags.filter fun d => !days.contains d.insertedAt.date
    dagIndex := m.dagIndex.filter fun e => !gone.any (·.externalId == e.1) }

/-- Brings the days of one table in line. -/
def maintainTable (m : ReadModel) (now : Instant) (t : Table) : Maintenance × ReadModel :=
  let existing := m.days.get t
  let plan := PartitionPlan.make existing now m.retentionDays
  let days := (plan.create.foldl (fun ds d => insertDate d ds) existing).filter (!plan.drop.contains ·)
  let m := { m with days := m.days.set t days }
  let m := match t with
    | .tasks => m.dropTasks plan.drop
    | .dags => m.dropDags plan.drop
    | .runs => m
  (⟨plan.create.map t.partitionName, plan.drop.map t.partitionName⟩, m)

/-- Creates the parts of today and tomorrow and drops those behind the retention window, with their
rows. -/
def maintain (m : ReadModel) (now : Instant) : Maintenance × ReadModel :=
  Table.all.foldl (fun (done, m) t =>
    let (more, m) := m.maintainTable now t
    (⟨done.created ++ more.created, done.dropped ++ more.dropped⟩, m)) ({}, m)

/-! ### Queries -/

def readTask (m : ReadModel) (tenant : TenantId) (id : ExternalId) : Option TaskRow :=
  ((findKey? id m.taskIndex).bind m.task?).filter (·.tenantId == tenant)

def readDag (m : ReadModel) (tenant : TenantId) (id : ExternalId) : Option DagRow :=
  ((findKey? id m.dagIndex).bind m.dag?).filter (·.tenantId == tenant)

def selects (m : ReadModel) (tenant : TenantId) (q : TaskQuery) (t : TaskRow) : Bool :=
  t.tenantId == tenant && decide (q.createdAfter ≤ t.insertedAt) &&
    q.effectiveStatuses.contains t.status &&
    (q.workflowIds.isEmpty || q.workflowIds.contains t.workflowId) &&
    (q.workerId.isNone || t.latestWorkerId == q.workerId) &&
    (q.finishedBefore.all fun before => (findKey? t.id m.finishedAt).any (· ≤ before)) &&
    (q.metadata.all fun (k, v) => findKey? k t.additionalMetadata == some v)

/-- Newer rows come first, and of rows of one instant the one with the larger id. -/
def newerFirst (a b : TaskRow) : Bool :=
  decide (b.insertedAt < a.insertedAt) || (a.insertedAt == b.insertedAt && decide (b.id ≤ a.id))

/-- A page of the selected tasks, newest first, and how many are selected in all. -/
def listTasks (m : ReadModel) (tenant : TenantId) (q : TaskQuery) : List TaskRow × Nat :=
  let selected := (m.tasks.filter (m.selects tenant q)).mergeSort newerFirst
  ((selected.drop q.offset).take q.limit, selected.length)

/-- Events come in the order of time, then of attempts, then of ranks. -/
def earlierEvent (a b : TaskEvent) : Bool :=
  decide (a.timestamp < b.timestamp) || (a.timestamp == b.timestamp &&
    (decide (a.retryCount < b.retryCount) ||
      (a.retryCount == b.retryCount && decide (a.status.rank ≤ b.status.rank))))

def listEvents (m : ReadModel) (tenant : TenantId) (task : TaskId) (insertedAt : Instant) :
    List TaskEvent :=
  (m.events.filter fun e =>
    e.tenantId == tenant && e.taskId == task && e.taskInsertedAt == insertedAt).mergeSort earlierEvent

/-- How many tasks have each status. -/
def countStatuses (m : ReadModel) (tenant : TenantId) (createdAfter : Instant)
    (workflows : List WorkflowId) : List (Status × Nat) :=
  let counted := m.tasks.filter fun t =>
    t.tenantId == tenant && decide (createdAfter ≤ t.insertedAt) &&
      (workflows.isEmpty || workflows.contains t.workflowId)
  Status.all.map fun s => (s, (counted.filter (·.status == s)).length)

/-- When an event of a task is due at the earliest, and how often it was put back. -/
def schedule? (m : ReadModel) (task : TaskId) : Option (Instant × Int) :=
  let all := (m.pendingEvents.filter (·.2.taskId == task)).map fun (_, p) =>
    (p.requeueAfter, p.requeueRetries)
  match all with
  | [] => none
  | first :: rest => some (rest.foldl (fun a b =>
      if b.1 < a.1 ∨ (b.1 = a.1 ∧ b.2 < a.2) then b else a) first)

end ReadModel

end WorkflowEngine
