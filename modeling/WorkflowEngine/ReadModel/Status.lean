import WorkflowEngine.Fault
import WorkflowEngine.Json.Codec

/-!
The statuses that readers see, ordered by rank, and the kinds of events that imply them.
-/

namespace WorkflowEngine

/-- What readers see of a task or a run. -/
inductive Status where
  | queued
  | running
  | completed
  | cancelled
  | failed
  deriving DecidableEq, Repr

namespace Status

/-- Every status, by rank. -/
def all : List Status := [queued, running, completed, cancelled, failed]

def rank : Status → Nat
  | queued => 0
  | running => 1
  | completed => 2
  | cancelled => 3
  | failed => 4

def outranks (a b : Status) : Bool := decide (b.rank < a.rank)

/-- The status ends an attempt. -/
def isTerminal : Status → Bool
  | queued | running => false
  | completed | cancelled | failed => true

def name : Status → String
  | queued => "QUEUED"
  | running => "RUNNING"
  | completed => "COMPLETED"
  | cancelled => "CANCELLED"
  | failed => "FAILED"

def ofName? (s : String) : Option Status := all.find? (·.name == s)

instance : Inhabited Status := ⟨queued⟩

instance : Codec Status where
  encode s := .str s.name
  decode := Decoder.constant ofName?

end Status

/-- What happened to a task. -/
inductive EventType where
  | retrying
  | reassigned
  | retriedByUser
  | created
  | queued
  | requeuedNoWorker
  | requeuedRateLimit
  | assigned
  | acknowledged
  | sentToWorker
  | slotReleased
  | started
  | timeoutRefreshed
  | schedulingTimedOut
  | finished
  | failed
  | cancelled
  | timedOut
  | rateLimitError
  | skipped
  deriving DecidableEq, Repr

namespace EventType

def all : List EventType :=
  [retrying, reassigned, retriedByUser, created, queued, requeuedNoWorker, requeuedRateLimit,
   assigned, acknowledged, sentToWorker, slotReleased, started, timeoutRefreshed,
   schedulingTimedOut, finished, failed, cancelled, timedOut, rateLimitError, skipped]

def name : EventType → String
  | retrying => "RETRYING"
  | reassigned => "REASSIGNED"
  | retriedByUser => "RETRIED_BY_USER"
  | created => "CREATED"
  | queued => "QUEUED"
  | requeuedNoWorker => "REQUEUED_NO_WORKER"
  | requeuedRateLimit => "REQUEUED_RATE_LIMIT"
  | assigned => "ASSIGNED"
  | acknowledged => "ACKNOWLEDGED"
  | sentToWorker => "SENT_TO_WORKER"
  | slotReleased => "SLOT_RELEASED"
  | started => "STARTED"
  | timeoutRefreshed => "TIMEOUT_REFRESHED"
  | schedulingTimedOut => "SCHEDULING_TIMED_OUT"
  | finished => "FINISHED"
  | failed => "FAILED"
  | cancelled => "CANCELLED"
  | timedOut => "TIMED_OUT"
  | rateLimitError => "RATE_LIMIT_ERROR"
  | skipped => "SKIPPED"

def ofName? (s : String) : Option EventType := all.find? (·.name == s)

/-- The type of a given name; another name is a fault. -/
def parse (s : String) : Except Fault EventType :=
  match ofName? s with
  | some t => .ok t
  | none => .error (.unknownEventType s)

/-- The status that an event of the type implies. -/
def status : EventType → Status
  | retrying | reassigned | retriedByUser | created | queued | requeuedNoWorker
  | requeuedRateLimit => .queued
  | assigned | acknowledged | sentToWorker | slotReleased | started | timeoutRefreshed => .running
  | finished | skipped => .completed
  | cancelled | schedulingTimedOut => .cancelled
  | failed | timedOut | rateLimitError => .failed

instance : Inhabited EventType := ⟨created⟩

instance : Codec EventType where
  encode t := .str t.name
  decode := Decoder.constant ofName?

end EventType

end WorkflowEngine
