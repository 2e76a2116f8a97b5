import WorkflowEngine.Json.Codec

/-!
The states of a task. A task waits, runs on a worker, and ends in one of four ways; an attempt that
fails with retries left waits again. A task may also be created in a state that ends it.
-/

namespace WorkflowEngine

inductive TaskState where
  | queued
  | running
  | completed
  | failed
  | cancelled
  | skipped
  deriving DecidableEq, Repr

namespace TaskState

def all : List TaskState := [queued, running, completed, failed, cancelled, skipped]

def name : TaskState → String
  | queued => "QUEUED"
  | running => "RUNNING"
  | completed => "COMPLETED"
  | failed => "FAILED"
  | cancelled => "CANCELLED"
  | skipped => "SKIPPED"

def ofName? (s : String) : Option TaskState := all.find? (·.name == s)

/-- No transition leaves the state. -/
def isTerminal : TaskState → Bool
  | queued | running => false
  | completed | failed | cancelled | skipped => true

instance : Inhabited TaskState := ⟨queued⟩

instance : Codec TaskState where
  encode s := .str s.name
  decode := Decoder.constant ofName?

end TaskState

/-- The state a task is created in. -/
inductive InitialState where
  | queued
  | failed
  | cancelled
  | skipped
  deriving DecidableEq, Repr

namespace InitialState

def all : List InitialState := [queued, failed, cancelled, skipped]

def state : InitialState → TaskState
  | queued => .queued
  | failed => .failed
  | cancelled => .cancelled
  | skipped => .skipped

def name (s : InitialState) : String := s.state.name

def ofName? (s : String) : Option InitialState := all.find? (·.name == s)

instance : Inhabited InitialState := ⟨queued⟩

instance : Codec InitialState where
  encode s := .str s.name
  decode := Decoder.constant ofName?

end InitialState

end WorkflowEngine
