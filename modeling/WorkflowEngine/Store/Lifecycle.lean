import WorkflowEngine.Store.Basic

/-!
What happens to attempts. Every request names an attempt, and only the current attempt of a task
that has not ended takes part; all others are passed over. An attempt that fails waits again while
the task has retries left: the retries of its step for errors of its own, and the internal retries of
the store for timeouts and lost workers.
-/

namespace WorkflowEngine

/-- The request to fail an attempt. -/
structure Failure where
  task : Attempt
  /-- The step itself failed, not its worker or its deadline. -/
  isAppError : Bool
  message : String
  deriving DecidableEq, Repr

/-- The attempts that failed for good, and the tasks that wait again. -/
structure FailureResult where
  released : List ReleasedTask := []
  retried : List RetriedTask := []
  deriving DecidableEq, Repr

def FailureResult.toJson (r : FailureResult) : Json := .ofMembers [
  ("released", .ofList ReleasedTask.toJson r.released),
  ("retried", .ofList RetriedTask.toJson r.retried)]

/-- A waiting task that shall run on a worker. -/
structure Assignment where
  task : Attempt
  worker : WorkerId
  deriving DecidableEq, Repr

/-- Which deadline a task has missed. -/
inductive TimeoutKind where
  /-- It waited too long. -/
  | schedule
  /-- It ran too long. -/
  | step
  deriving DecidableEq, Repr

structure Overdue where
  task : Task
  kind : TimeoutKind

/-- A running attempt whose worker is gone. -/
structure Stranded where
  task : Attempt
  worker : WorkerId
  deriving DecidableEq, Repr

/-- What tells a task row apart. -/
structure TaskMeta where
  id : TaskId
  insertedAt : Instant
  externalId : ExternalId
  retryCount : Int
  workflowId : WorkflowId
  dagId : Option DagId
  dagInsertedAt : Option Instant
  deriving DecidableEq, Repr

namespace TaskMeta

def ofTask (t : Task) : TaskMeta where
  id := t.id
  insertedAt := t.insertedAt
  externalId := t.externalId
  retryCount := t.retryCount
  workflowId := t.workflowId
  dagId := t.dagId
  dagInsertedAt := t.dagInsertedAt

def toJson (m : TaskMeta) : Json := .ofMembers [
  ("id", .int m.id),
  ("inserted_at", encode m.insertedAt),
  ("external_id", encode m.externalId),
  ("retry_count", .int m.retryCount),
  ("workflow_id", encode m.workflowId),
  ("dag_id", .ofOption .int m.dagId),
  ("dag_inserted_at", .ofOption encode m.dagInsertedAt)]

end TaskMeta

namespace Store

/-- Ends a task in its new state; all it holds becomes free. -/
def finish (s : Store) (t : Task) : ReleasedTask × Store :=
  (.ofTask t (s.heldBy t.id), (s.setTask t).release t.id)

/-! ### Completion and cancellation -/

def completeOne (s : Store) (tenant : TenantId) (a : Attempt) : Option ReleasedTask × Store :=
  match s.accepted? tenant a with
  | none => (none, s)
  | some t =>
    let (released, s) := s.finish { t with state := .completed, timeoutAt := none }
    (some released, s)

/-- Completes attempts, one after the other. -/
def complete (s : Store) (tenant : TenantId) : List Attempt → List ReleasedTask × Store
  | [] => ([], s)
  | a :: rest =>
    let (first, s) := s.completeOne tenant a
    let (others, s) := s.complete tenant rest
    (first.toList ++ others, s)

def cancelOne (s : Store) (tenant : TenantId) (a : Attempt) : Option ReleasedTask × Store :=
  match s.accepted? tenant a with
  | none => (none, s)
  | some t =>
    let (released, s) :=
      s.finish { t with state := .cancelled, timeoutAt := none, scheduleTimeoutAt := none }
    (some released, s)

/-- Cancels attempts, one after the other. -/
def cancel (s : Store) (tenant : TenantId) : List Attempt → List ReleasedTask × Store
  | [] => ([], s)
  | a :: rest =>
    let (first, s) := s.cancelOne tenant a
    let (others, s) := s.cancel tenant rest
    (first.toList ++ others, s)

/-! ### Failure -/

/-- The task has a retry left for such a failure. -/
def mayRetry (s : Store) (t : Task) (isAppError : Bool) : Bool :=
  if isAppError then decide (t.retryCount < t.retries)
  else decide (t.internalRetryCount < s.internalRetries)

/-- The task with its next attempt waiting. -/
def nextAttempt (t : Task) (isAppError : Bool) (now : Instant) : Except Fault Task := do
  let deadline ← Task.deadline now t.scheduleTimeoutSecs
  return { t with
    workerId := none
    retryCount := t.retryCount + 1
    internalRetryCount := if isAppError then t.internalRetryCount else t.internalRetryCount + 1
    state := .queued
    timeoutAt := none
    scheduleTimeoutAt := some deadline }

/-- What one failure comes to. -/
inductive FailureOutcome where
  | ignored
  | released (task : ReleasedTask)
  | retried (task : RetriedTask)
  deriving DecidableEq, Repr

def FailureResult.add (r : FailureResult) : FailureOutcome → FailureResult
  | .ignored => r
  | .released t => { r with released := r.released ++ [t] }
  | .retried t => { r with retried := r.retried ++ [t] }

def failOne (s : Store) (now : Instant) (tenant : TenantId) (f : Failure) :
    Except Fault (FailureOutcome × Store) :=
  match s.accepted? tenant f.task with
  | none => .ok (.ignored, s)
  | some t =>
    if s.mayRetry t f.isAppError then do
      let next ← nextAttempt t f.isAppError now
      let retried : RetriedTask :=
        { id := t.id
          retryCount := next.retryCount
          failedAttempt := f.task
          queue := t.queue
          isAppError := f.isAppError
          workerId := t.workerId
          concurrencyStrategyIds := s.heldBy t.id }
      return (.retried retried, ((s.setTask next).release t.id).enqueue next)
    else
      let (released, s) := s.finish { t with state := .failed, timeoutAt := none }
      .ok (.released released, s)

/-- Fails attempts, one after the other. -/
def fail (s : Store) (now : Instant) (tenant : TenantId) (failures : List Failure) :
    Except Fault (FailureResult × Store) :=
  failures.foldlM (fun (r, s) f => do
    let (outcome, s) ← s.failOne now tenant f
    return (FailureResult.add r outcome, s)) ({}, s)

/-! ### Assignment -/

/-- A task runs on a worker if its current attempt waits in its queue. -/
def assignOne (s : Store) (now : Instant) (tenant : TenantId) (a : Assignment) :
    Except Fault (Option Attempt × Store) :=
  let inQueue := (s.queueItem? a.task.id).any fun item =>
    item.task == a.task && item.tenantId == tenant
  match (s.accepted? tenant a.task).filter fun t => inQueue && t.state == .queued with
  | none => .ok (none, s)
  | some t => do
    let deadline ← Task.deadline now t.stepTimeoutSecs
    let running := { t with
      state := .running
      workerId := some a.worker
      scheduleTimeoutAt := none
      timeoutAt := some deadline }
    let s := s.setTask running
    return (some a.task, { s with queueItems := s.queueItems.filter (·.task.id != t.id) })

/-- Assigns attempts, one after the other, and tells which ones run now. -/
def assign (s : Store) (now : Instant) (tenant : TenantId) :
    List Assignment → Except Fault (List Attempt × Store)
  | [] => .ok ([], s)
  | a :: rest => do
    let (first, s) ← s.assignOne now tenant a
    let (others, s) ← s.assign now tenant rest
    return (first.toList ++ others, s)

/-! ### Sweeps -/

/-- The deadline that a task has missed. -/
def overdue? (t : Task) (now : Instant) : Option TimeoutKind :=
  match t.state with
  | .queued => if t.scheduleTimeoutAt.any (· ≤ now) then some .schedule else none
  | .running => if t.timeoutAt.any (· ≤ now) then some .step else none
  | _ => none

/-- The first tasks of the tenant, by id, that have missed a deadline. -/
def listOverdue (s : Store) (tenant : TenantId) (limit : Nat) (now : Instant) : List Overdue :=
  ((s.tasks.filter (·.tenantId == tenant)).filterMap fun t =>
    (overdue? t now).map (Overdue.mk t)).take limit

/-- The worker of a running task, if it is unknown or inactive. -/
def lostWorker? (s : Store) (t : Task) : Option WorkerId := do
  guard (t.state == .running)
  let id ← t.workerId
  guard (!(s.worker? id).any (·.isActive))
  return id

/-- The first tasks of the tenant, by id, whose worker is gone. -/
def listStranded (s : Store) (tenant : TenantId) (limit : Nat) : List Stranded :=
  ((s.tasks.filter (·.tenantId == tenant)).filterMap fun t =>
    (s.lostWorker? t).map (Stranded.mk t.attempt)).take limit

def taskMetas (s : Store) (tenant : TenantId) (ids : List TaskId) : List TaskMeta :=
  (ids.filterMap (s.tenantTask? tenant)).map TaskMeta.ofTask

end Store

end WorkflowEngine
