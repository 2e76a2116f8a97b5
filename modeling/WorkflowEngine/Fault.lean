import WorkflowEngine.Calendar.Instant
import WorkflowEngine.Json.Value

/-!
What can go wrong, by cause. `Fault.message` holds the wording.
-/

namespace WorkflowEngine

/-- Faults in the building blocks of the engine. -/
inductive ValueFault where
  | invalidId (message : String)
  | serialization (message : String)
  | invalidInput (message : String)
  deriving DecidableEq, Repr

def ValueFault.message : ValueFault → String
  | .invalidId m => "invalid identifier: " ++ m
  | .serialization m => "serialization error: " ++ m
  | .invalidInput m => "invalid input: " ++ m

/-- Faults of the engine. A transport fault is redelivered by the bus, a storage fault aborts the
batch, an unknown kind or event type rejects one message, and independent faults of one batch are
gathered into `multiple`. -/
inductive Fault where
  | taskNotFound (task : Int)
  | resourceNotFound (resource : String) (id : String)
  | unknownMessageKind (kind : String)
  | unknownEventType (eventType : String)
  | transport (message : String)
  | storage (message : String) (hasSource : Bool)
  | serialization (message : String)
  | configuration (message : String)
  | lockTimeout (strategy : Int) (timeout : Span)
  | partitionMissing (table : String) (date : Date)
  | panic (message : String)
  | multiple (faults : List Fault)
  | value (fault : ValueFault)
  deriving Repr

namespace Fault

instance : Inhabited Fault := ⟨.panic ""⟩

/-- A storage fault without a deeper cause. -/
abbrev ofStorage (message : String) : Fault := .storage message false

mutual

def message : Fault → String
  | .taskNotFound task => s!"task not found: {task}"
  | .resourceNotFound resource id => s!"not found: {resource} with id {id}"
  | .unknownMessageKind kind => s!"unknown message kind: {kind}"
  | .unknownEventType eventType => s!"unknown event type: {eventType}"
  | .transport m => "transport error: " ++ m
  | .storage m _ => "storage error: " ++ m
  | .serialization m => "serialization error: " ++ m
  | .configuration m => "configuration error: " ++ m
  | .lockTimeout strategy timeout =>
    s!"timed out after {timeout.text} waiting for advisory lock on strategy {strategy}"
  | .partitionMissing table date => s!"no partition of {table} covers {date.text}"
  | .panic m => "recovered from panic: " ++ m
  | .multiple faults => s!"{faults.length} errors occurred:" ++ bullets faults
  | .value fault => "core error: " ++ fault.message

/-- One line per fault of a batch. -/
def bullets : List Fault → String
  | [] => ""
  | f :: fs => "\n\t* " ++ message f ++ bullets fs

end

/-- The name of the kind of a fault. -/
def kind : Fault → String
  | .taskNotFound _ => "TaskNotFound"
  | .resourceNotFound .. => "ResourceNotFound"
  | .unknownMessageKind _ => "UnknownMessageKind"
  | .unknownEventType _ => "UnknownEventType"
  | .transport _ => "Transport"
  | .storage .. => "Storage"
  | .serialization _ => "Serialization"
  | .configuration _ => "Configuration"
  | .lockTimeout .. => "LockTimeout"
  | .partitionMissing .. => "PartitionMissing"
  | .panic _ => "Panic"
  | .multiple _ => "Multiple"
  | .value (.invalidId _) => "Core.InvalidId"
  | .value (.serialization _) => "Core.Serialization"
  | .value (.invalidInput _) => "Core.InvalidInput"

/-- The fault rejects a message outright instead of failing for the time being. -/
def isClassification : Fault → Bool
  | .unknownMessageKind _ | .unknownEventType _ => true
  | _ => false

/-- The fault names a deeper cause. -/
def hasSource : Fault → Bool
  | .storage _ source => source
  | .value _ => true
  | _ => false

/-- The outcome of a batch from the faults of its items: one fault stands for itself. -/
def ofBatch : List Fault → Except Fault Unit
  | [] => .ok ()
  | [f] => .error f
  | fs => .error (.multiple fs)

end Fault

end WorkflowEngine
