import WorkflowEngine.Proofs.InPlace
import WorkflowEngine.Proofs.Store.Batches
import WorkflowEngine.Proofs.Store.Reachable

/-!
The commands of the store as programs that change it in place. Each checks first what may be missing: the
partition of the day, a worker, a valid workflow. After that only a deadline can fail, with a panic, when
a task has its number or its new state already.
-/

namespace WorkflowEngine

open Fallible InPlace

theorem Task.deadline_panics {now : Instant} {seconds : Int} {x : Fault}
    (late : Task.deadline now seconds = .error x) : x.isPanic = true := by
  unfold Task.deadline at late
  split at late
  · cases late
  · cases late
    rfl

/-! ### Creation -/

namespace Creation

variable {c : Creation} {w : RegisteredWorkflow} {r : RunRequest} {step : Step} {n : NewTask}
  {now : Instant} {tenant : TenantId} {x : Fault}

theorem addTask_panics (failed : c.addTask w step n now = .error x) : x.isPanic = true := by
  rcases bind_error failed with late | ⟨_, _, done⟩
  · simp only [Store.insertTask] at late
    split at late
    · rcases bind_error late with late | ⟨_, _, done⟩
      · cases reached : Task.deadline now step.scheduleTimeoutSecs with
        | ok _ =>
          rw [reached] at late
          cases late
        | error y =>
          rw [reached] at late
          cases late
          exact Task.deadline_panics reached
      · cases done
    · cases late
  · cases done

theorem addSingle_panics (failed : c.addSingle w r now = .error x) : x.isPanic = true := by
  unfold addSingle at failed
  split at failed
  · cases failed
  · exact addTask_panics failed

theorem addRoot_panics {d : Dag} (failed : c.addRoot w r d step = .error x) : x.isPanic = true :=
  addTask_panics (c := { c with ids := c.ids.draw.2 }) failed

theorem addReady_panics {waiting : WaitingStep} (failed : c.addReady tenant now waiting = .error x) :
    x.isPanic = true := by
  unfold addReady at failed
  simp only at failed
  split at failed
  · cases failed
  · exact addTask_panics (c := { c with ids := c.ids.draw.2 }) failed

/-- Takes the number of the next task. -/
def number (c : Creation) : Creation :=
  { c with store := { c.store with lastTaskId := c.store.lastTaskId + 1 } }

/-- The run that an order comes to. -/
def dagOf (c : Creation) (w : RegisteredWorkflow) (r : RunRequest) (now : Instant) : Dag where
  id := c.store.lastDagId + 1
  insertedAt := now
  tenantId := w.tenantId
  externalId := r.externalId
  workflowId := w.definition.id
  displayName := w.definition.name
  input := r.data
  additionalMetadata := r.metadata
  totalTasks := w.definition.steps.length

def record (w : RegisteredWorkflow) (d : Dag) (c : Creation) : Creation :=
  { c with store := { c.store with lastDagId := d.id, dags := c.store.dags ++ [⟨d, w.definition.name⟩] } }

/-- Lets the steps with parents wait. -/
def await (w : RegisteredWorkflow) (d : Dag) (c : Creation) : Creation :=
  { c with
    store := { c.store with waiting := c.store.waiting ++ w.definition.childSteps.map fun step =>
      { tenantId := w.tenantId, dagId := d.id, step := step.readableId, parents := step.parents } }
    dags := c.dags ++ [d] }

def addDagInPlace (w : RegisteredWorkflow) (r : RunRequest) (now : Instant) : InPlace Creation Unit := do
  let d ← read (dagOf · w r now)
  modify (record w d)
  w.definition.rootSteps.forM fun step => writing number (·.addRoot w r d step)
  modify (await w d)

theorem addDag_steady (w : RegisteredWorkflow) (r : RunRequest) (now : Instant) :
    Steady (addDagInPlace w r now) (·.addDag w r now) := by
  intro c
  have roots : Steady (w.definition.rootSteps.forM fun step =>
        writing number (·.addRoot w r (dagOf c w r now) step))
      fun c' => w.definition.rootSteps.foldlM (fun c' step => c'.addRoot w r (dagOf c w r now) step) c' :=
    Steady.forM (fun step => Steady.writing number fun _ _ => addRoot_panics) _
  rw [addDagInPlace, run_read, run_modify]
  exact (roots _).bind (Steady.modify (await w (dagOf c w r now)))

/-- Runs a workflow, unless the external id is taken. -/
def addRunInPlace (w : RegisteredWorkflow) (r : RunRequest) (now : Instant) : InPlace Creation Unit := do
  if ← read (·.store.isTaken r.externalId) then return ()
  else if w.definition.isDag then addDagInPlace w r now
  else writing number (·.addSingle w r now)

theorem addRun_steady (w : RegisteredWorkflow) (r : RunRequest) (now : Instant) :
    Steady (addRunInPlace w r now) (·.addRun w r now) := by
  intro c
  change Comes _ (c.addRun w r now)
  rw [addRunInPlace, run_read, addRun]
  split
  · exact rfl
  · split
    · exact addDag_steady w r now c
    · exact Steady.writing number (fun _ _ => addSingle_panics) c

/-- Runs a workflow for an event, under a fresh external id. -/
def addEventRunInPlace (w : RegisteredWorkflow) (e : UserEvent) (now : Instant) :
    InPlace Creation Unit := do
  let id ← read (·.ids.draw.1)
  modify fun c => { c with ids := c.ids.draw.2 }
  addRunInPlace w
    { externalId := id, workflowName := w.definition.name, data := e.data, metadata := e.metadata } now

theorem addEventRun_steady (w : RegisteredWorkflow) (e : UserEvent) (now : Instant) :
    Steady (addEventRunInPlace w e now) (·.addEventRun w e now) := by
  intro c
  rw [addEventRunInPlace, run_read, run_modify]
  exact addRun_steady w _ now { c with ids := c.ids.draw.2 }

def addEventInPlace (tenant : TenantId) (now : Instant) (e : UserEvent) : InPlace Creation Unit := do
  let matching ← read fun c => c.store.workflows.filter fun w =>
    w.tenantId == tenant && w.definition.eventTriggers.contains e.key
  matching.forM fun w => addEventRunInPlace w e now

theorem addEvent_steady (tenant : TenantId) (now : Instant) (e : UserEvent) :
    Steady (addEventInPlace tenant now e) (·.addEvent tenant now e) := by
  intro c
  rw [addEventInPlace, run_read]
  exact Steady.forM (fun w => addEventRun_steady w e now) _ c

/-- Runs the workflow that an order names, unless it is unknown or the child was started before. -/
def addRequestInPlace (tenant : TenantId) (now : Instant) (r : RunRequest) : InPlace Creation Unit := do
  match ← read (·.store.workflow? tenant r.workflowName) with
  | none => return ()
  | some w =>
    match r.child? with
    | none => addRunInPlace w r now
    | some child =>
      if ← read (·.store.children.contains child) then return ()
      else
        addRunInPlace w r now
        modify fun c => { c with store := { c.store with children := c.store.children ++ [child] } }

theorem addRequest_steady (tenant : TenantId) (now : Instant) (r : RunRequest) :
    Steady (addRequestInPlace tenant now r) (·.addRequest tenant now r) := by
  intro c
  change Comes _ (c.addRequest tenant now r)
  rw [addRequestInPlace, run_read, addRequest]
  cases c.store.workflow? tenant r.workflowName with
  | none => exact rfl
  | some w =>
    cases r.child? with
    | none => exact addRun_steady w r now c
    | some child =>
      simp only
      rw [run_read]
      split
      · exact rfl
      · exact (addRun_steady w r now c).bind (Steady.modify _)

end Creation

/-- Creates tasks and runs in a store. -/
def creating (ids : IdSource) (p : InPlace Creation Unit) : InPlace Store Unit :=
  ⟨fun s => let (result, c) := p.run { store := s, ids }; (result, c.store)⟩

theorem creating_steady {ids : IdSource} {p : InPlace Creation Unit}
    {f : Creation → Except Fault Creation} (steady : Steady p f) :
    Steady (creating ids p) fun s => do return (← f { store := s, ids }).store := by
  intro s
  have comes := steady { store := s, ids }
  change Comes ((p.run { store := s, ids }).1, (p.run { store := s, ids }).2.store)
    (f { store := s, ids } >>= fun c => .ok c.store)
  cases given : f { store := s, ids } with
  | ok c =>
    rw [given] at comes
    have comes : p.run { store := s, ids } = (.ok (), c) := comes
    rw [comes]
    exact rfl
  | error x =>
    rw [given] at comes
    exact comes

namespace Store

variable {s s' : Store} {now : Instant} {tenant : TenantId} {x : Fault}

theorem requirePartition_plain (missing : s.requirePartition now = .error x) : x.isPanic = false := by
  unfold requirePartition at missing
  split at missing
  · cases missing
  · cases missing
    rfl

/-- Without a partition for the day nothing runs, and whatever else goes wrong is a panic. -/
theorem triggerEvents_fault {ids : IdSource} {events : List UserEvent}
    (failed : s.triggerEvents ids now tenant events = .error x) :
    s.requirePartition now = .error x ∨ s.requirePartition now = .ok () ∧ x.isPanic = true := by
  rcases bind_error failed with missing | ⟨_, here, stopped⟩
  · exact Or.inl missing
  · have comes := Steady.forM (fun e => Creation.addEvent_steady tenant now e) events
      { store := s, ids }
    simp only [stopped] at comes
    exact Or.inr ⟨here, comes.1⟩

/-! ### Attempts -/

theorem nextAttempt_panics {t : Task} {isAppError : Bool}
    (failed : nextAttempt t isAppError now = .error x) : x.isPanic = true := by
  rcases bind_error failed with late | ⟨_, _, done⟩
  · exact Task.deadline_panics late
  · cases done

/-- Fails an attempt, and leaves aside what came of it. -/
def failed (s : Store) (now : Instant) (tenant : TenantId) (f : Failure) : Except Fault Store := do
  return (← s.failOne now tenant f).2

theorem failed_panics {f : Failure} (stopped : s.failed now tenant f = .error x) : x.isPanic = true := by
  rcases bind_error stopped with stopped | ⟨_, _, done⟩
  · unfold failOne at stopped
    split at stopped
    · cases stopped
    · split at stopped
      · rcases bind_error stopped with late | ⟨_, _, done⟩
        · exact nextAttempt_panics late
        · cases done
      · cases stopped
  · cases done

/-- The task of a failure waits again, before its new deadline is known. -/
def retrying (tenant : TenantId) (f : Failure) (s : Store) : Store :=
  match s.accepted? tenant f.task with
  | none => s
  | some t =>
    if s.mayRetry t f.isAppError then
      s.setTask { t with
        workerId := none
        retryCount := t.retryCount + 1
        internalRetryCount := if f.isAppError then t.internalRetryCount else t.internalRetryCount + 1
        state := .queued
        timeoutAt := none }
    else s

theorem fail_each (s : Store) (now : Instant) (tenant : TenantId) (failures : List Failure) :
    (do return (← s.fail now tenant failures).2) =
      failures.foldlM (fun s f => s.failed now tenant f) s := by
  induction failures generalizing s with
  | nil => rfl
  | cons f rest ih =>
    rw [List.foldlM_cons, failed]
    simp only [fail, List.foldlM_cons]
    cases s.failOne now tenant f with
    | error x => rfl
    | ok p =>
      obtain ⟨outcome, s₁⟩ := p
      change rest.foldlM _ (FailureResult.add {} outcome, s₁) >>= _ =
        rest.foldlM (fun s f => s.failed now tenant f) s₁
      rw [fail_from, ← ih s₁]
      cases s₁.fail now tenant rest <;> rfl

/-- Assigns an attempt, and leaves aside whether it took place. -/
def assigned (s : Store) (now : Instant) (tenant : TenantId) (a : Assignment) : Except Fault Store := do
  return (← s.assignOne now tenant a).2

theorem assigned_panics {a : Assignment} (stopped : s.assigned now tenant a = .error x) :
    x.isPanic = true := by
  rcases bind_error stopped with stopped | ⟨_, _, done⟩
  · unfold assignOne at stopped
    simp only at stopped
    split at stopped
    · cases stopped
    · rcases bind_error stopped with late | ⟨_, _, done⟩
      · exact Task.deadline_panics late
      · cases done
  · cases done

theorem assign_each (s : Store) (now : Instant) (tenant : TenantId) (as : List Assignment) :
    (do return (← s.assign now tenant as).2) = as.foldlM (fun s a => s.assigned now tenant a) s := by
  induction as generalizing s with
  | nil => rfl
  | cons a rest ih =>
    rw [List.foldlM_cons, assigned]
    simp only [assign]
    cases s.assignOne now tenant a with
    | error x => rfl
    | ok p =>
      obtain ⟨first, s₁⟩ := p
      change _ = rest.foldlM (fun s a => s.assigned now tenant a) s₁
      rw [← ih s₁]
      change (s₁.assign now tenant rest >>= _) >>= _ = s₁.assign now tenant rest >>= _
      cases s₁.assign now tenant rest <;> rfl

/-- The task of an assignment runs, before it has a deadline. -/
def starting (a : Assignment) (s : Store) : Store :=
  match s.task? a.task.id with
  | none => s
  | some t =>
    s.setTask { t with state := .running, workerId := some a.worker, scheduleTimeoutAt := none }

end Store

/-! ### Commands -/

section

open Creation

def triggerEventsInPlace (ids : IdSource) (now : Instant) (tenant : TenantId)
    (events : List UserEvent) : InPlace Store (List Attempt) := do
  check (·.requirePartition now)
  creating ids (events.forM fun e => addEventInPlace tenant now e)
  return []

def triggerRunsInPlace (ids : IdSource) (now : Instant) (tenant : TenantId)
    (requests : List RunRequest) : InPlace Store (List Attempt) := do
  check (·.requirePartition now)
  creating ids (requests.forM fun r => addRequestInPlace tenant now r)
  return []

/-- The steps that wait are told, those that are ready are taken out, and each of them gets its task. -/
def settleInPlace (ids : IdSource) (now : Instant) (tenant : TenantId) (events : List OutcomeEvent) :
    InPlace Store Unit := do
  modify fun s => events.foldl (fun s e => s.noteOutcome tenant e) s
  let (ready, waiting) ← read fun s => s.waiting.partition fun w => w.tenantId == tenant && w.isReady
  modify ({ · with waiting })
  creating ids (ready.forM fun w => writing number (·.addReady tenant now w))

def matchOutcomesInPlace (ids : IdSource) (now : Instant) (tenant : TenantId)
    (events : List OutcomeEvent) : InPlace Store (List Attempt) := do
  check (·.requirePartition now)
  settleInPlace ids now tenant events
  return []

def failInPlace (now : Instant) (tenant : TenantId) (failures : List Failure) :
    InPlace Store (List Attempt) := do
  failures.forM fun f => writing (Store.retrying tenant f) (·.failed now tenant f)
  return []

def assignInPlace (now : Instant) (tenant : TenantId) (assignments : List Assignment) :
    InPlace Store (List Attempt) := do
  assignments.forM fun a => writing (Store.starting a) (·.assigned now tenant a)
  return []

/-- What a command does to the store in place, with the attempts that a strategy evicts. -/
def Command.inPlace : Command → InPlace Store (List Attempt)
  | .registerTenant t => do
    modify (·.registerTenant t)
    return []
  | .registerWorker w => do
    modify (·.registerWorker w)
    return []
  | .setWorkerActive id active => do
    let s ← check (·.setWorkerActive id active)
    modify fun _ => s
    return []
  | .registerWorkflow tenant w => do
    check fun _ => w.validate
    modify fun s => (s.registerWorkflow tenant w).2
    return []
  | .createPartitions now => do
    modify (·.createPartitions now)
    return []
  | .triggerEvents ids now tenant events => triggerEventsInPlace ids now tenant events
  | .triggerRuns ids now tenant requests => triggerRunsInPlace ids now tenant requests
  | .matchOutcomes ids now tenant events => matchOutcomesInPlace ids now tenant events
  | .complete tenant attempts => do
    modify fun s => (s.complete tenant attempts).2
    return []
  | .fail now tenant failures => failInPlace now tenant failures
  | .cancel tenant attempts => do
    modify fun s => (s.cancel tenant attempts).2
    return []
  | .assign now tenant assignments => assignInPlace now tenant assignments
  | .runStrategy tenant strategy => do
    let (summary, s) ← read (·.runStrategy tenant strategy)
    modify fun _ => s
    return summary.cancelled.map (·.task)
  | .refreshActive tenant strategy => do
    modify fun s => (s.refreshActive tenant strategy).2
    return []

variable (ids : IdSource) (now : Instant) (tenant : TenantId)

theorem triggerEvents_atomic (events : List UserEvent) :
    Atomic (triggerEventsInPlace ids now tenant events) fun s => do
      return ([], (← s.triggerEvents ids now tenant events).store) := by
  have each := Steady.forM (fun e => addEvent_steady tenant now e) events
  have added := @creating_steady ids _ _ each
  refine (Atomic.check (c := (·.requirePartition now)) fun _ => added.atomic []).congr fun s => ?_
  simp only [Store.triggerEvents, bind_assoc, pure_bind]

theorem triggerRuns_atomic (requests : List RunRequest) :
    Atomic (triggerRunsInPlace ids now tenant requests) fun s => do
      return ([], (← s.triggerRuns ids now tenant requests).store) := by
  have each := Steady.forM (fun r => addRequest_steady tenant now r) requests
  have added := @creating_steady ids _ _ each
  refine (Atomic.check (c := (·.requirePartition now)) fun _ => added.atomic []).congr fun s => ?_
  simp only [Store.triggerRuns, bind_assoc, pure_bind]

theorem settle_steady (events : List OutcomeEvent) :
    Steady (settleInPlace ids now tenant events) fun s => do
      let s := events.foldl (fun s e => s.noteOutcome tenant e) s
      let (ready, waiting) := s.waiting.partition fun w => w.tenantId == tenant && w.isReady
      let c : Creation := { store := { s with waiting }, ids }
      return (← ready.foldlM (fun c w => c.addReady tenant now w) c).store := by
  intro s
  have each (w : WaitingStep) : Steady (writing number (·.addReady tenant now w))
      (·.addReady tenant now w) :=
    Steady.writing number fun _ _ => addReady_panics
  rw [settleInPlace, run_modify, run_read, run_modify]
  exact creating_steady (Steady.forM each _) _

theorem matchOutcomes_atomic (events : List OutcomeEvent) :
    Atomic (matchOutcomesInPlace ids now tenant events) fun s => do
      return ([], (← s.matchOutcomes ids now tenant events).store) := by
  have settled := settle_steady ids now tenant events
  refine (Atomic.check (c := (·.requirePartition now)) fun _ => settled.atomic []).congr fun s => ?_
  simp only [Store.matchOutcomes, bind_assoc, pure_bind]

theorem fail_atomic (failures : List Failure) :
    Atomic (failInPlace now tenant failures) fun s => do
      return ([], (← s.fail now tenant failures).2) := by
  have each (f : Failure) : Steady (writing (Store.retrying tenant f) (·.failed now tenant f))
      (·.failed now tenant f) :=
    Steady.writing _ fun _ _ => Store.failed_panics
  refine ((Steady.forM each failures).atomic []).congr fun s => ?_
  rw [← Store.fail_each]
  simp only [bind_assoc, pure_bind]

theorem assign_atomic (assignments : List Assignment) :
    Atomic (assignInPlace now tenant assignments) fun s => do
      return ([], (← s.assign now tenant assignments).2) := by
  have each (a : Assignment) : Steady (writing (Store.starting a) (·.assigned now tenant a))
      (·.assigned now tenant a) :=
    Steady.writing _ fun _ _ => Store.assigned_panics
  refine ((Steady.forM each assignments).atomic []).congr fun s => ?_
  rw [← Store.assign_each]
  simp only [bind_assoc, pure_bind]

/-- Every command does in place what it is said to do, and fails without a trace unless it panics. -/
theorem Command.inPlace_atomic (c : Command) : Atomic c.inPlace (·.obey c) := by
  cases c with
  | registerTenant | registerWorker | createPartitions | complete | cancel | runStrategy
  | refreshActive => exact fun _ => rfl
  | setWorkerActive | registerWorkflow => exact Atomic.check fun _ _ => rfl
  | triggerEvents ids now tenant events => exact triggerEvents_atomic ids now tenant events
  | triggerRuns ids now tenant requests => exact triggerRuns_atomic ids now tenant requests
  | matchOutcomes ids now tenant events => exact matchOutcomes_atomic ids now tenant events
  | fail now tenant failures => exact fail_atomic now tenant failures
  | assign now tenant assignments => exact assign_atomic now tenant assignments

end

end WorkflowEngine
