import WorkflowEngine.Alert
import WorkflowEngine.Bus.Broker
import WorkflowEngine.Effect.Posting
import WorkflowEngine.Guarded
import WorkflowEngine.ReadModel.Dedup
import WorkflowEngine.ReadModel.State
import WorkflowEngine.Settings

/-!
The engine as a whole: the store, the read model, the bus, and the records of what was counted and
alerted.
-/

namespace WorkflowEngine

structure Engine where
  settings : Settings := {}
  store : Guarded Store := .sound {}
  readModel : Guarded ReadModel := .sound {}
  /-- The number of shares of the read model. -/
  shares : Nat := 4
  cache : DedupCache := .ofCapacity 100000
  bus : Bus := {}
  metrics : Metrics := {}
  alerts : List Alert := []
  ids : IdSource := {}
  /-- Operations of the read model that fail at present. -/
  failing : List String := []

namespace Engine

/-- An engine without data. -/
def ofSettings (settings : Settings) : Engine where
  settings := settings
  store := .sound { internalRetries := settings.internalRetries }
  readModel := .sound (.ofLimits settings.reconcilePartitions settings.retentionDays)
  shares := max settings.reconcilePartitions 1
  cache := .ofCapacity settings.dedupCacheCapacity

def count (e : Engine) (c : Counter) (n : Nat) : Engine := { e with metrics := e.metrics.add c n }

/-! ### Access to the store -/

/-- Reads the store. -/
def read {α : Type} (e : Engine) (f : Store → α) : Except Fault α := f <$> e.store.get

/-- Changes the store. -/
def write {α : Type} (e : Engine) (f : Store → Except Fault (α × Store)) : Except Fault α × Engine :=
  let (result, store) := e.store.write f
  (result, { e with store })

/-! ### Sending -/

def send (e : Engine) (queue : QueueName) (m : Message) : Except Fault Unit × Engine :=
  let (result, bus) := e.bus.send queue m
  (result, { e with bus })

def post (e : Engine) : Posting → Except Fault Unit × Engine
  | .error f => (.error f, e)
  | .ok p => e.send p.queue p.message

/-- Sends everything that can be sent, and gives the faults of the rest in order. -/
def postAll (e : Engine) : List Posting → List Fault × Engine
  | [] => ([], e)
  | p :: rest =>
    let (result, e) := e.post p
    let (faults, e) := e.postAll rest
    (match result with
      | .ok _ => faults
      | .error f => f :: faults, e)

/-- Takes over what a request comes to. Messages that could not be sent count as send failures of the
given cause. -/
def perform (e : Engine) (cause : String) (x : Effect) : Engine :=
  let e := { e with store := .sound x.store, ids := x.ids, metrics := e.metrics.addAll x.counts }
  let (faults, e) := e.postAll x.postings
  e.count (.sendFailures cause) faults.length

/-- Recovers from a panic, with an alert. -/
def recovered (e : Engine) (context : String) (result : Except Fault Unit) :
    Except Fault Unit × Engine :=
  let (result, alerts) := (Work.ofExcept result).recover context
  (result, { e with alerts := e.alerts ++ alerts })

/-- Counts a handled message. -/
def countHandled (e : Engine) (kind : MessageKind) (result : Except Fault Unit) : Engine :=
  e.count (.messagesHandled kind (match result with | .ok _ => true | .error _ => false)) 1

end Engine

end WorkflowEngine
