import WorkflowEngine.Ascending
import WorkflowEngine.Task.Dag
import WorkflowEngine.Task.Outcome
import WorkflowEngine.Workflow.Definition

/-!
The store of the engine: tenants, workers, workflows, tasks and runs, and for waiting tasks a place
in a queue or slots in strategies. A task with strategies holds a slot in the first of them; once let
in it gets one in the next, and behind the last a place in its queue.
-/

namespace WorkflowEngine

structure Tenant where
  id : TenantId
  /-- The partition of tenants whose scheduler serves this one. -/
  schedulerPartition : Option String
  deriving DecidableEq, Repr

namespace Tenant

def toJson (t : Tenant) : Json := .ofMembers [
  ("id", encode t.id), ("scheduler_partition_id", .ofOption .str t.schedulerPartition)]

end Tenant

structure Worker where
  id : WorkerId
  tenantId : TenantId
  /-- The dispatcher that the worker is connected to. -/
  dispatcherId : DispatcherId
  isActive : Bool := true
  deriving DecidableEq, Repr

/-- A limit of a step of a registered workflow. -/
structure Strategy where
  id : StrategyId
  tenantId : TenantId
  workflowId : WorkflowId
  stepId : StepId
  policy : Policy
  expression : String
  maxConcurrency : Int
  /-- The strategy has slots, or had some when this was last looked at. -/
  isActive : Bool
  deriving DecidableEq, Repr

namespace Strategy

def fieldNames : List String :=
  ["id", "tenant_id", "workflow_id", "step_id", "kind", "expression", "max_concurrency", "is_active"]

instance : Codec Strategy where
  encode s := .ofMembers [
    ("id", .int s.id), ("tenant_id", encode s.tenantId), ("workflow_id", encode s.workflowId),
    ("step_id", encode s.stepId), ("kind", encode s.policy), ("expression", .str s.expression),
    ("max_concurrency", .int s.maxConcurrency), ("is_active", .bool s.isActive)]
  decode depth d := do
    let fields ← Fields.of? fieldNames depth d
    return { id := ← fields.required "id" .int64
             tenantId := ← fields.required "tenant_id" Codec.decode
             workflowId := ← fields.required "workflow_id" Codec.decode
             stepId := ← fields.required "step_id" Codec.decode
             policy := ← fields.required "kind" Codec.decode
             expression := ← fields.required "expression" .text
             maxConcurrency := ← fields.required "max_concurrency" .int32
             isActive := ← fields.required "is_active" .bool }

end Strategy

/-- A workflow of a tenant, with the strategies of each step in the order of its limits. -/
structure RegisteredWorkflow where
  tenantId : TenantId
  definition : Workflow
  strategies : List (String × List StrategyId)

namespace RegisteredWorkflow

def strategiesOf (w : RegisteredWorkflow) (step : Step) : List StrategyId :=
  ((w.strategies.find? (·.1 == step.readableId)).map (·.2)).getD []

/-- Tenants come one after the other, and the workflows of one in the order of their names. -/
def before (a b : RegisteredWorkflow) : Bool :=
  decide (a.tenantId.value < b.tenantId.value) ||
    (a.tenantId == b.tenantId && decide (a.definition.name < b.definition.name))

end RegisteredWorkflow

/-- How a parent of a waiting step ended, and its output. -/
structure ParentOutcome where
  parent : String
  outcome : Outcome
  output : Json

/-- A step of a run that waits for its parents. -/
structure WaitingStep where
  tenantId : TenantId
  dagId : DagId
  step : String
  parents : List String
  /-- The parents that have ended, in the order of their names. -/
  outcomes : List ParentOutcome := []

namespace WaitingStep

def isReady (w : WaitingStep) : Bool :=
  w.parents.all fun p => w.outcomes.any (·.parent == p)

def record (w : WaitingStep) (o : ParentOutcome) : WaitingStep :=
  { w with outcomes := Ascending.put (fun a b => decide (a.parent < b.parent)) o w.outcomes }

end WaitingStep

/-- A run, with the name its workflow had when it was triggered. -/
structure DagRecord where
  dag : Dag
  workflowName : String

/-- An attempt that waits in its queue for a worker. -/
structure QueueItem where
  tenantId : TenantId
  task : Attempt
  queue : String
  deriving DecidableEq, Repr

/-- The written form. -/
def QueueItem.toJson (q : QueueItem) : Json := .ofMembers [
  ("tenant", encode q.tenantId), ("task", encode q.task), ("queue", .str q.queue)]

/-- The place of an attempt in a strategy. -/
structure Slot where
  tenantId : TenantId
  strategyId : StrategyId
  task : Attempt
  key : String
  /-- The age of the slot; a smaller one is older. -/
  sortId : Int
  /-- The slot holds capacity. -/
  filled : Bool
  queue : String
  /-- The strategies that the attempt has to pass after this one. -/
  next : List StrategyId
  deriving DecidableEq, Repr

/-- The written form. -/
def Slot.toJson (x : Slot) : Json := .ofMembers [
  ("tenant", encode x.tenantId), ("strategy", .int x.strategyId), ("task", encode x.task),
  ("key", .str x.key), ("sort_id", .int x.sortId), ("filled", .bool x.filled),
  ("queue", .str x.queue), ("next", .ofList .int x.next)]

/-- What tells the runs started by tasks apart. -/
structure ChildKey where
  parent : TaskId
  index : Int
  key : Option String
  deriving DecidableEq, Repr

structure Store where
  /-- Retries granted for timeouts and lost workers. -/
  internalRetries : Int := 3
  /-- Ascending by id. -/
  tenants : List Tenant := []
  workers : List Worker := []
  workflows : List RegisteredWorkflow := []
  strategies : List Strategy := []
  /-- Ascending by id: the newest task is last. -/
  tasks : List Task := []
  dags : List DagRecord := []
  /-- Ascending by task. -/
  queueItems : List QueueItem := []
  /-- From the oldest to the newest, at most one for a task and a strategy. -/
  slots : List Slot := []
  waiting : List WaitingStep := []
  /-- The children that were started. -/
  children : List ChildKey := []
  /-- The days that tasks can be written for, ascending. -/
  partitions : List Date := []
  lastTaskId : TaskId := 0
  lastDagId : DagId := 0
  lastStrategyId : StrategyId := 0
  lastSortId : Int := 0

namespace Store

instance : Inhabited Store := ⟨{}⟩

def tenant? (s : Store) (id : TenantId) : Option Tenant := s.tenants.find? (·.id == id)

def worker? (s : Store) (id : WorkerId) : Option Worker := s.workers.find? (·.id == id)

def workflow? (s : Store) (tenant : TenantId) (name : String) : Option RegisteredWorkflow :=
  s.workflows.find? fun w => w.tenantId == tenant && w.definition.name == name

def strategy? (s : Store) (id : StrategyId) : Option Strategy := s.strategies.find? (·.id == id)

def task? (s : Store) (id : TaskId) : Option Task := s.tasks.find? (·.id == id)

/-- A task, if it belongs to the tenant. -/
def tenantTask? (s : Store) (tenant : TenantId) (id : TaskId) : Option Task :=
  (s.task? id).filter (·.tenantId == tenant)

/-- The task that an attempt of the tenant names, if it accepts the attempt. -/
def accepted? (s : Store) (tenant : TenantId) (a : Attempt) : Option Task :=
  (s.tenantTask? tenant a.id).filter (·.accepts a)

/-- The newest task with an external id. -/
def taskByExternalId? (s : Store) (id : ExternalId) : Option Task :=
  s.tasks.findRev? (·.externalId == id)

/-- A task or a run has the external id. -/
def isTaken (s : Store) (id : ExternalId) : Bool :=
  s.tasks.any (·.externalId == id) || s.dags.any (·.dag.externalId == id)

def dag? (s : Store) (id : DagId) : Option DagRecord := s.dags.find? (·.dag.id == id)

def queueItem? (s : Store) (id : TaskId) : Option QueueItem := s.queueItems.find? (·.task.id == id)

def slot? (s : Store) (strategy : StrategyId) (task : TaskId) : Option Slot :=
  s.slots.find? fun slot => slot.strategyId == strategy && slot.task.id == task

/-- The slots of a strategy, oldest first. -/
def slotsOf (s : Store) (strategy : StrategyId) : List Slot :=
  s.slots.filter (·.strategyId == strategy)

/-- Writes a changed task back. -/
def setTask (s : Store) (t : Task) : Store :=
  { s with tasks := s.tasks.map fun u => if u.id == t.id then t else u }

/-- Puts an attempt into its queue. -/
def insertQueueItem (s : Store) (item : QueueItem) : Store :=
  { s with queueItems := Ascending.put (fun a b => decide (a.task.id < b.task.id)) item s.queueItems }

def setStrategyActive (s : Store) (id : StrategyId) (active : Bool) : Store :=
  { s with strategies := s.strategies.map fun x => if x.id == id then { x with isActive := active } else x }

/-- Gives an attempt the newest slot of a strategy, which becomes active. -/
def insertSlot (s : Store) (tenant : TenantId) (strategy : StrategyId) (task : Attempt)
    (key queue : String) (next : List StrategyId) : Store :=
  let sortId := s.lastSortId + 1
  let slot : Slot :=
    { tenantId := tenant, strategyId := strategy, task, key, sortId, filled := false, queue, next }
  let others := s.slots.filter fun x => !(x.strategyId == strategy && x.task.id == task.id)
  { s.setStrategyActive strategy true with lastSortId := sortId, slots := others ++ [slot] }

def fillSlot (s : Store) (strategy : StrategyId) (task : TaskId) : Store :=
  { s with slots := s.slots.map fun x =>
      if x.strategyId == strategy && x.task.id == task then { x with filled := true } else x }

/-- Puts a waiting task into the first of its strategies, or into its queue if it has none. -/
def enqueue (s : Store) (t : Task) : Store :=
  match t.concurrencyStrategyIds with
  | [] => s.insertQueueItem ⟨t.tenantId, t.attempt, t.queue⟩
  | first :: next =>
    s.insertSlot t.tenantId first t.attempt (t.concurrencyKeys.headD "") t.queue next

/-- The strategies that a task holds slots in, ascending. -/
def heldBy (s : Store) (task : TaskId) : List StrategyId :=
  ((s.slots.filter (·.task.id == task)).map (·.strategyId)).mergeSort (fun a b => decide (a ≤ b))

/-- Takes away all slots of a task and its place in the queue. -/
def release (s : Store) (task : TaskId) : Store :=
  { s with
    slots := s.slots.filter (·.task.id != task)
    queueItems := s.queueItems.filter (·.task.id != task) }

/-- The table of tasks has a partition for the day. -/
def requirePartition (s : Store) (now : Instant) : Except Fault Unit :=
  if s.partitions.contains now.date then .ok ()
  else .error (.partitionMissing "v1_task" now.date)

end Store

end WorkflowEngine
