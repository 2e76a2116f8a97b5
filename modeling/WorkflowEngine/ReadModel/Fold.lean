import WorkflowEngine.ReadModel.Row

/-!
How events become statuses. Of the pending events of a task only those of its latest attempt count,
and of these the one of the highest rank; the winner is applied only if it outranks what is
recorded. An event whose task is not there yet waits, twice as long each time.
-/

namespace WorkflowEngine

/-- How often an event or an update whose row is missing is put back. -/
def maxRequeues : Int := 10

-- Powers are those of the core library, whichever others are in scope.
attribute [local instance (2000)] instPowNat

/-- The delay, in seconds, before the next try after some tries. -/
def requeueDelay (retries : Int) : Int := 2 * 2 ^ (min (max retries 0) maxRequeues).toNat

/-- An event that waits to be folded. -/
structure Pending where
  tenantId : TenantId
  taskId : TaskId
  taskInsertedAt : Instant
  retryCount : Int
  status : Status
  timestamp : Instant
  workerId : Option WorkerId
  /-- The earliest instant at which the event is due again. -/
  requeueAfter : Instant
  /-- How often the event was put back. -/
  requeueRetries : Int
  deriving DecidableEq, Repr, Inhabited

namespace Pending

def ofEvent (e : TaskEvent) (now : Instant) : Pending where
  tenantId := e.tenantId
  taskId := e.taskId
  taskInsertedAt := e.taskInsertedAt
  retryCount := e.retryCount
  status := e.status
  timestamp := e.timestamp
  workerId := e.workerId
  requeueAfter := now
  requeueRetries := 0

/-- The event put back once more, or `none` if it was put back too often. -/
def requeued (p : Pending) (now : Instant) : Except Fault (Option Pending) :=
  if maxRequeues ≤ p.requeueRetries then .ok none
  else do
    let after ← Task.deadline now (requeueDelay p.requeueRetries)
    return some { p with requeueAfter := after, requeueRetries := p.requeueRetries + 1 }

end Pending

/-- What a batch of events says about one task. -/
structure Folded where
  taskId : TaskId
  taskInsertedAt : Instant
  /-- The latest attempt. -/
  retryCount : Int
  /-- The highest status of that attempt. -/
  status : Status
  timestamp : Instant
  workerId : Option WorkerId
  deriving DecidableEq, Repr, Inhabited

namespace Folded

def ofPending (p : Pending) : Folded where
  taskId := p.taskId
  taskInsertedAt := p.taskInsertedAt
  retryCount := p.retryCount
  status := p.status
  timestamp := p.timestamp
  workerId := p.workerId

/-- The later attempt wins, then the higher status. A worker is kept from any event of the attempt
if the winner names none. -/
def merge (current candidate : Folded) : Folded :=
  if current.retryCount < candidate.retryCount then candidate
  else if candidate.retryCount < current.retryCount then current
  else if candidate.status.outranks current.status then
    { candidate with workerId := candidate.workerId <|> current.workerId }
  else { current with workerId := current.workerId <|> candidate.workerId }

/-- Tasks are told apart and ordered by their id and the instant of their creation. -/
def sameTask (a b : Folded) : Bool :=
  a.taskId == b.taskId && a.taskInsertedAt == b.taskInsertedAt

def before (a b : Folded) : Bool :=
  decide (a.taskId < b.taskId) ||
    (a.taskId == b.taskId && decide (a.taskInsertedAt < b.taskInsertedAt))

def insert (candidate : Folded) : List Folded → List Folded
  | [] => [candidate]
  | f :: rest =>
    if before candidate f then candidate :: f :: rest
    else if sameTask candidate f then merge f candidate :: rest
    else f :: insert candidate rest

/-- The written form. -/
def toJson (f : Folded) : Json := .ofMembers [
  ("task_id", .int f.taskId),
  ("task_inserted_at", encode f.taskInsertedAt),
  ("retry_count", .int f.retryCount),
  ("readable_status", encode f.status),
  ("event_timestamp", encode f.timestamp),
  ("worker_id", .ofOption encode f.workerId)]

end Folded

/-- One candidate for each task, in the order of the tasks. -/
def foldPending (events : List Pending) : List Folded :=
  events.foldl (fun acc p => Folded.insert (Folded.ofPending p) acc) []

/-- The candidate may replace what is recorded. -/
def shouldApply (recordedRetry : Int) (recorded : Status) (retry : Int) (candidate : Status) : Bool :=
  decide (recordedRetry ≤ retry) && candidate.outranks recorded

/-- The status of a run from those of its tasks: queued until one moves, running until all have
ended, and then the worst of them. -/
def foldDagStatus (totalTasks : Nat) (statuses : List Status) : Status :=
  if statuses.all (· == .queued) then .queued
  else if (statuses.filter (·.isTerminal)).length < max totalTasks 1 then .running
  else if statuses.contains .failed then .failed
  else if statuses.contains .cancelled then .cancelled
  else .completed

end WorkflowEngine
