import WorkflowEngine.Store.Basic

/-!
Tenants, workers and workflows of the store, and the days it has partitions for.
-/

namespace WorkflowEngine.Store

def registerTenant (s : Store) (t : Tenant) : Store :=
  { s with tenants := Ascending.put (fun a b => decide (a.id.value < b.id.value)) t s.tenants }

def registerWorker (s : Store) (w : Worker) : Store :=
  { s with workers := s.workers.filter (·.id != w.id) ++ [w] }

def setWorkerActive (s : Store) (id : WorkerId) (active : Bool) : Except Fault Store :=
  match s.worker? id with
  | none => .error (.resourceNotFound "worker" id.text)
  | some w => .ok (s.registerWorker { w with isActive := active })

/-- The strategies of the limits of a step, numbered on from the last one. -/
def stepStrategies (tenant : TenantId) (workflow : Workflow) (step : Step) (last : StrategyId) :
    List StepLimit → List Strategy
  | [] => []
  | l :: rest =>
    { id := last + 1
      tenantId := tenant
      workflowId := workflow.id
      stepId := step.id
      policy := l.policy
      expression := l.expression
      maxConcurrency := l.maxConcurrency
      isActive := true } :: stepStrategies tenant workflow step (last + 1) rest

/-- The strategies of each step in turn. -/
def workflowStrategies (tenant : TenantId) (workflow : Workflow) (last : StrategyId) :
    List Step → List (String × List Strategy)
  | [] => []
  | step :: rest =>
    (step.readableId, stepStrategies tenant workflow step last step.limits) ::
      workflowStrategies tenant workflow (last + step.limits.length) rest

/-- Registers a valid workflow, in place of one of the same name, and gives each limit of its steps
a strategy. Strategies of the earlier one remain. -/
def registerWorkflow (s : Store) (tenant : TenantId) (workflow : Workflow) : List Strategy × Store :=
  let byStep := workflowStrategies tenant workflow s.lastStrategyId workflow.steps
  let created := byStep.flatMap (·.2)
  let entry : RegisteredWorkflow :=
    { tenantId := tenant
      definition := workflow
      strategies := byStep.map fun (step, ss) => (step, ss.map (·.id)) }
  (created, { s with
    strategies := s.strategies ++ created
    lastStrategyId := s.lastStrategyId + created.length
    workflows := Ascending.put RegisteredWorkflow.before entry s.workflows })

/-- Adds the partitions of today and tomorrow. -/
def createPartitions (s : Store) (now : Instant) : Store :=
  let put (d : Date) (ds : List Date) := Ascending.put (fun a b => decide (a < b)) d ds
  { s with partitions := put ((now.date.add? 1).getD now.date) (put now.date s.partitions) }

/-- The dispatchers of those workers that belong to the tenant, by worker. -/
def dispatchers (s : Store) (tenant : TenantId) (workers : List WorkerId) :
    List (WorkerId × DispatcherId) :=
  workers.filterMap fun id => do
    let w ← (s.worker? id).filter (·.tenantId == tenant)
    return (id, w.dispatcherId)

end WorkflowEngine.Store
