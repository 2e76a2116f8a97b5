import WorkflowEngine.Store.Basic

/-!
How tasks come into being: by user events, by orders to run a workflow, and for the steps of a run
whose parents have ended. A run whose external id is taken is not started again, and neither is a
child that its parent has started before.
-/

namespace WorkflowEngine

/-- An event that may trigger workflows. -/
structure UserEvent where
  id : Identifier
  key : String
  data : Json
  metadata : List (String × String)

/-- The order to run a workflow. -/
structure RunRequest where
  externalId : ExternalId
  workflowName : String
  data : Json
  metadata : List (String × String) := []
  parentTaskId : Option TaskId := none
  childIndex : Option Int := none
  childKey : Option String := none

/-- Names the child, if a task gave the order and numbered it. -/
def RunRequest.child? (r : RunRequest) : Option ChildKey := do
  return ⟨← r.parentTaskId, ← r.childIndex, r.childKey⟩

/-- The announcement of an outcome, offered to the steps that wait. -/
structure OutcomeEvent where
  timestamp : Instant
  key : String
  data : Json

/-- What a new task is made of, beside its step. -/
structure NewTask where
  externalId : ExternalId
  displayName : String
  dag : Option (DagId × Instant) := none
  input : Json
  metadata : List (String × String)
  parentTaskId : Option TaskId := none
  childIndex : Option Int := none
  childKey : Option String := none
  /-- The state it is created in and why, if that is not left to its step. -/
  forced : Option (InitialState × String) := none

namespace NewTask

/-- The state a task is created in, the reason for it, and the keys of its limits. It is skipped if
the condition of its step holds, and fails if a limit has no key for its input. -/
def start (n : NewTask) (step : Step) : InitialState × Option String × List String :=
  match n.forced with
  | some (state, reason) => (state, some reason, [])
  | none =>
    if step.skipIf.any (·.holds n.input) then (.skipped, none, [])
    else match step.keys n.input with
      | .ok keys => (.queued, none, keys)
      | .error reason => (.failed, some reason, [])

end NewTask

namespace Store

/-- Creates a task. Unless it ends at once, it gets a deadline and waits for admission. -/
def insertTask (s : Store) (w : RegisteredWorkflow) (step : Step) (n : NewTask) (now : Instant) :
    Except Fault (Task × Store) := do
  let (initial, reason, keys) := n.start step
  let waits := initial == .queued
  let deadline ← if waits then some <$> Task.deadline now step.scheduleTimeoutSecs else pure none
  let t : Task := {
    id := s.lastTaskId + 1
    insertedAt := now
    tenantId := w.tenantId
    externalId := n.externalId
    queue := step.queue
    stepId := step.id
    stepReadableId := step.readableId
    workflowId := w.definition.id
    displayName := n.displayName
    dagId := n.dag.map (·.1)
    dagInsertedAt := n.dag.map (·.2)
    input := n.input
    additionalMetadata := n.metadata
    retryCount := 0
    internalRetryCount := 0
    retries := step.retries
    state := initial.state
    initialState := initial
    initialStateReason := reason
    desiredWorkerId := none
    workerId := none
    concurrencyKeys := keys
    concurrencyStrategyIds := if waits then w.strategiesOf step else []
    scheduleTimeoutSecs := step.scheduleTimeoutSecs
    stepTimeoutSecs := step.stepTimeoutSecs
    scheduleTimeoutAt := deadline
    timeoutAt := none
    parentTaskId := n.parentTaskId
    childIndex := n.childIndex
    childKey := n.childKey }
  let s := { s with tasks := s.tasks ++ [t], lastTaskId := t.id }
  return (t, if waits then s.enqueue t else s)

end Store

/-- A store to which tasks and runs are being added, with what was added so far. -/
structure Creation where
  store : Store
  ids : IdSource
  tasks : List Task := []
  dags : List Dag := []

namespace Creation

/-- The written form of what was added. -/
def toJson (c : Creation) : Json := .ofMembers [
  ("tasks", .ofList encode c.tasks), ("dags", .ofList encode c.dags)]

def addTask (c : Creation) (w : RegisteredWorkflow) (step : Step) (n : NewTask) (now : Instant) :
    Except Fault Creation := do
  let (t, store) ← c.store.insertTask w step n now
  return { c with store, tasks := c.tasks ++ [t] }

/-! ### Runs -/

/-- A task on its own, for a workflow of one step. -/
def addSingle (c : Creation) (w : RegisteredWorkflow) (r : RunRequest) (now : Instant) :
    Except Fault Creation :=
  match w.definition.steps with
  | [] => .ok c
  | step :: _ =>
    c.addTask w step
      { externalId := r.externalId
        displayName := w.definition.name
        input := r.data
        metadata := r.metadata
        parentTaskId := r.parentTaskId
        childIndex := r.childIndex
        childKey := r.childKey } now

/-- The name that a task of a run is shown under. -/
def stepDisplayName (w : RegisteredWorkflow) (step : Step) : String :=
  w.definition.name ++ "/" ++ step.readableId

/-- The task of a step that waits for no other. -/
def addRoot (c : Creation) (w : RegisteredWorkflow) (r : RunRequest) (dag : Dag) (step : Step) :
    Except Fault Creation :=
  let (id, ids) := c.ids.draw
  { c with ids }.addTask w step
    { externalId := id
      displayName := stepDisplayName w step
      dag := some (dag.id, dag.insertedAt)
      input := r.data
      metadata := r.metadata
      parentTaskId := r.parentTaskId
      childIndex := r.childIndex
      childKey := r.childKey } dag.insertedAt

/-- A run: the tasks of its root steps, and a waiting step for each of the others. -/
def addDag (c : Creation) (w : RegisteredWorkflow) (r : RunRequest) (now : Instant) :
    Except Fault Creation := do
  let dag : Dag := {
    id := c.store.lastDagId + 1
    insertedAt := now
    tenantId := w.tenantId
    externalId := r.externalId
    workflowId := w.definition.id
    displayName := w.definition.name
    input := r.data
    additionalMetadata := r.metadata
    totalTasks := w.definition.steps.length }
  let store := { c.store with
    lastDagId := dag.id
    dags := c.store.dags ++ [⟨dag, w.definition.name⟩] }
  let c ← w.definition.rootSteps.foldlM (fun c step => c.addRoot w r dag step) { c with store }
  let waiting := w.definition.childSteps.map fun step =>
    { tenantId := w.tenantId, dagId := dag.id, step := step.readableId, parents := step.parents }
  return { c with
    store := { c.store with waiting := c.store.waiting ++ waiting }
    dags := c.dags ++ [dag] }

/-- Runs a workflow, unless the external id is taken. -/
def addRun (c : Creation) (w : RegisteredWorkflow) (r : RunRequest) (now : Instant) :
    Except Fault Creation :=
  if c.store.isTaken r.externalId then .ok c
  else if w.definition.isDag then c.addDag w r now
  else c.addSingle w r now

/-! ### Triggers -/

/-- Runs a workflow for an event, under a fresh external id. -/
def addEventRun (c : Creation) (w : RegisteredWorkflow) (e : UserEvent) (now : Instant) :
    Except Fault Creation :=
  let (id, ids) := c.ids.draw
  { c with ids }.addRun w
    { externalId := id, workflowName := w.definition.name, data := e.data, metadata := e.metadata } now

/-- Runs every workflow of the tenant that the event triggers, in the order of their names. -/
def addEvent (c : Creation) (tenant : TenantId) (now : Instant) (e : UserEvent) :
    Except Fault Creation :=
  let matching := c.store.workflows.filter fun w =>
    w.tenantId == tenant && w.definition.eventTriggers.contains e.key
  matching.foldlM (fun c w => c.addEventRun w e now) c

/-- Runs the workflow that an order names. An order for an unknown workflow or a child that was
started before is passed over. -/
def addRequest (c : Creation) (tenant : TenantId) (now : Instant) (r : RunRequest) :
    Except Fault Creation :=
  match c.store.workflow? tenant r.workflowName with
  | none => .ok c
  | some w =>
    match r.child? with
    | none => c.addRun w r now
    | some child =>
      if c.store.children.contains child then .ok c
      else do
        let c ← c.addRun w r now
        return { c with store := { c.store with children := c.store.children ++ [child] } }

end Creation

namespace Store

def triggerEvents (s : Store) (ids : IdSource) (now : Instant) (tenant : TenantId)
    (events : List UserEvent) : Except Fault Creation := do
  s.requirePartition now
  events.foldlM (fun c e => c.addEvent tenant now e) { store := s, ids }

def triggerRuns (s : Store) (ids : IdSource) (now : Instant) (tenant : TenantId)
    (requests : List RunRequest) : Except Fault Creation := do
  s.requirePartition now
  requests.foldlM (fun c r => c.addRequest tenant now r) { store := s, ids }

/-! ### Steps that waited -/

/-- Tells the steps that wait for the task whose outcome the event announces. -/
def noteOutcome (s : Store) (tenant : TenantId) (e : OutcomeEvent) : Store :=
  match Outcome.ofKey? e.key with
  | none => s
  | some (outcome, externalId) =>
    match (s.taskByExternalId? externalId).filter (·.tenantId == tenant) with
    | none => s
    | some parent =>
      match parent.dagId with
      | none => s
      | some dagId =>
        let output := match outcome with
          | .completed => (e.data.get? "output").getD .null
          | .failed | .cancelled => .null
        let o : ParentOutcome := ⟨parent.stepReadableId, outcome, output⟩
        { s with waiting := s.waiting.map fun w =>
            if w.tenantId == tenant && w.dagId == dagId && w.parents.contains o.parent then w.record o
            else w }

end Store

/-- The input of a step that waited: the input of its run with the outputs of its parents. -/
def childInput (runInput : Json) (outcomes : List ParentOutcome) : Json :=
  let parents := Json.ofMembers (outcomes.map fun o => (o.parent, o.output))
  match runInput with
  | .obj members => .obj (Json.insertMember "parents" parents members)
  | other => .ofMembers [("input", other), ("parents", parents)]

namespace Creation

/-- The task of a step whose parents have ended. It is cancelled if one of them did not complete. A
step that is no longer defined gets none. -/
def addReady (c : Creation) (tenant : TenantId) (now : Instant) (waiting : WaitingStep) :
    Except Fault Creation :=
  let found := do
    let record ← c.store.dag? waiting.dagId
    let w ← c.store.workflow? tenant record.workflowName
    let step ← w.definition.step? waiting.step
    return (record.dag, w, step)
  match found with
  | none => .ok c
  | some (dag, w, step) =>
    let (id, ids) := c.ids.draw
    let blocked := waiting.outcomes.find? (·.outcome != .completed)
    { c with ids }.addTask w step
      { externalId := id
        displayName := stepDisplayName w step
        dag := some (dag.id, dag.insertedAt)
        input := childInput dag.input waiting.outcomes
        metadata := dag.additionalMetadata
        forced := blocked.map fun o : ParentOutcome =>
          (.cancelled, s!"parent step '{o.parent}' did not complete") } now

end Creation

namespace Store

/-- Offers announcements to the steps that wait, and creates the tasks of those that are ready
then. -/
def matchOutcomes (s : Store) (ids : IdSource) (now : Instant) (tenant : TenantId)
    (events : List OutcomeEvent) : Except Fault Creation := do
  s.requirePartition now
  let s := events.foldl (fun s e => s.noteOutcome tenant e) s
  let (ready, waiting) := s.waiting.partition fun w => w.tenantId == tenant && w.isReady
  ready.foldlM (fun c w => c.addReady tenant now w) { store := { s with waiting }, ids }

end Store

end WorkflowEngine
