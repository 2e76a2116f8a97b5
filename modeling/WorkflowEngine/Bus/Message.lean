import WorkflowEngine.Fault
import WorkflowEngine.Identifier
import WorkflowEngine.Task.Basic

/-!
Messages of the bus: the queues they are sent to, the kinds of them, and what one carries.
-/

namespace WorkflowEngine

inductive QueueName where
  /-- Requests about tasks. -/
  | tasks
  /-- What the read model takes in. -/
  | readModel
  /-- Signals to the workers of one dispatcher. -/
  | dispatcher (id : DispatcherId)
  /-- Notices to the scheduler of one partition of tenants. -/
  | scheduler (partition : String)
  deriving DecidableEq, Repr

/-- The name of the queue at the broker. -/
def QueueName.text : QueueName → String
  | .tasks => "task_processing_queue_v2"
  | .readModel => "olap_queue_v2"
  | .dispatcher id => id.text ++ "_dispatcher_v1"
  | .scheduler partition => partition ++ "_scheduler"

inductive MessageKind where
  | taskCompleted
  | taskFailed
  | taskCancelled
  | userEvent
  | internalEvent
  | taskTrigger
  | createdTask
  | createdDag
  | createMonitoringEvent
  | notifyTaskCreated
  | notifyTaskReleased
  deriving DecidableEq, Repr

namespace MessageKind

def all : List MessageKind :=
  [taskCompleted, taskFailed, taskCancelled, userEvent, internalEvent, taskTrigger, createdTask,
   createdDag, createMonitoringEvent, notifyTaskCreated, notifyTaskReleased]

def name : MessageKind → String
  | taskCompleted => "task-completed"
  | taskFailed => "task-failed"
  | taskCancelled => "task-cancelled"
  | userEvent => "user-event"
  | internalEvent => "internal-event"
  | taskTrigger => "task-trigger"
  | createdTask => "created-task"
  | createdDag => "created-dag"
  | createMonitoringEvent => "create-monitoring-event"
  | notifyTaskCreated => "notify-task-created"
  | notifyTaskReleased => "notify-task-released"

/-- The kind of a given name; another name is a fault. -/
def parse (s : String) : Except Fault MessageKind :=
  match all.find? (·.name == s) with
  | some k => .ok k
  | none => .error (.unknownMessageKind s)

instance : Inhabited MessageKind := ⟨taskCompleted⟩

end MessageKind

/-- A message: payloads of one kind for one tenant. -/
structure Message where
  /-- The name of the kind; it may be one that nobody knows. -/
  kindName : String
  payloads : List ByteArray
  tenantId : TenantId
  /-- The message is dropped where nobody listens. -/
  expires : Bool
  /-- The message outlives the broker. -/
  persistent : Bool
  /-- The trace that the message belongs to. -/
  trace : List (String × String) := []
  /-- How often the message may still be delivered again. -/
  retries : Nat

namespace Message

/-- The redelivery budget of a new message. -/
def defaultRetries : Nat := 5

def ofPayloads {α : Type} [Codec α] (kind : MessageKind) (expires persistent : Bool)
    (tenant : TenantId) (payloads : List α) : Message where
  kindName := kind.name
  payloads := payloads.map Codec.toBytes
  tenantId := tenant
  expires := expires
  persistent := persistent
  retries := defaultRetries

def kind (m : Message) : Except Fault MessageKind := MessageKind.parse m.kindName

def withRetries (m : Message) (retries : Nat) : Message := { m with retries := retries }

def fieldNames : List String :=
  ["id", "messages", "tenant_id", "immediately_expire", "persistent", "otel_carrier", "retries"]

def encodeBytes (b : ByteArray) : Json := .ofList (fun x : UInt8 => .ofNat x.toNat) b.toList

def decodeBytes : Decoder ByteArray := fun depth d => do
  let bytes ← Decoder.list (.natBelow 256) depth d
  return ⟨(bytes.map Nat.toUInt8).toArray⟩

instance : Codec Message where
  encode m := .ofMembers [
    ("id", .str m.kindName),
    ("messages", .ofList encodeBytes m.payloads),
    ("tenant_id", encode m.tenantId),
    ("immediately_expire", .bool m.expires),
    ("persistent", .bool m.persistent),
    ("otel_carrier", .ofTexts m.trace),
    ("retries", .ofNat m.retries)]
  decode depth d := do
    let fields ← Fields.of? fieldNames depth d
    return {
      kindName := ← fields.required "id" .text
      payloads := ← fields.required "messages" (.list decodeBytes)
      tenantId := ← fields.required "tenant_id" Codec.decode
      expires := ← fields.required "immediately_expire" .bool
      persistent := ← fields.required "persistent" .bool
      trace := ← fields.withDefault "otel_carrier" [] .textMap
      retries := ← fields.required "retries" .nat32 }

end Message

end WorkflowEngine
