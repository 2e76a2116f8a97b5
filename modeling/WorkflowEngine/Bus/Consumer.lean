import WorkflowEngine.Bus.Message

/-!
A batching consumer. Messages are gathered by tenant and kind; a batch is handed over once it is
large enough, and all that is left is handed over at the next flush. Each message of a batch that
could not be handled is sent again with one retry less, until none is left.
-/

namespace WorkflowEngine

/-- What is handed over at once: messages of one tenant and one kind, in the order of arrival. -/
structure Batch where
  tenantId : TenantId
  kindName : String
  messages : List Message

namespace Batch

def ofMessage (m : Message) : Batch := ⟨m.tenantId, m.kindName, [m]⟩

/-- The message belongs into the batch. -/
def fits (b : Batch) (m : Message) : Bool := b.tenantId == m.tenantId && b.kindName == m.kindName

def payloads (b : Batch) : List ByteArray := b.messages.flatMap (·.payloads)

/-- Adds a message to the batch it belongs into, or as a new batch behind the others. -/
def gather (m : Message) : List Batch → List Batch
  | [] => [ofMessage m]
  | b :: rest =>
    if b.fits m then { b with messages := b.messages ++ [m] } :: rest else b :: gather m rest

end Batch

/-- A message as it is sent again, if it has a retry left. -/
def Message.redelivery? (m : Message) : Option Message :=
  match m.retries with
  | 0 => none
  | retries + 1 => some (m.withRetries retries)

/-- What is sent again of a batch that could not be handled. -/
def Batch.redeliveries (b : Batch) : List Message := b.messages.filterMap Message.redelivery?

structure Consumer where
  queue : QueueName
  /-- The size at which a batch is handed over at once. -/
  maxBatch : Nat := 100
  /-- What was received and not handed over yet. -/
  batches : List Batch := []

namespace Consumer

/-- Takes in a message, and hands its batch over if that is large enough now. -/
def receive (c : Consumer) (m : Message) : Option Batch × Consumer :=
  let batches := Batch.gather m c.batches
  match batches.find? (·.fits m) with
  | none => (none, { c with batches })
  | some b =>
    if c.maxBatch ≤ b.messages.length then
      (some b, { c with batches := batches.filter (!·.fits m) })
    else (none, { c with batches })

/-- Hands over all that is left. -/
def flush (c : Consumer) : List Batch × Consumer := (c.batches, { c with batches := [] })

end Consumer

end WorkflowEngine
