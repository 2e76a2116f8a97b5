import WorkflowEngine.Effect.Request
import WorkflowEngine.Effect.Sweep
import WorkflowEngine.Engine.State

/-!
Tasks at work: requests from the bus, sweeps, and the partitions of the store.
-/

namespace WorkflowEngine.Engine

/-- Registers a workflow, if it is valid. -/
def registerWorkflow (e : Engine) (tenant : TenantId) (w : Workflow) :
    Except Fault (List Strategy) × Engine :=
  match w.validate with
  | .error f => (.error f, e)
  | .ok _ => e.write fun s => .ok (s.registerWorkflow tenant w)

/-- The tenant of the given identifier, who has to be registered. -/
def tenant (e : Engine) (id : TenantId) : Except Fault Tenant := do
  match ← e.read (·.tenant? id) with
  | some t => return t
  | none => throw (.resourceNotFound "tenant" id.text)

/-- Creates tasks and runs, under identifiers that are drawn as needed. -/
def create (e : Engine) (f : Store → IdSource → Except Fault Creation) :
    Except Fault Creation × Engine :=
  match e.write fun s => do
      let c ← f s e.ids
      return (c, c.store) with
  | (.ok c, e) => (.ok c, { e with ids := c.ids })
  | (.error x, e) => (.error x, e)

/-- Serves a request. A fault other than a panic leaves the store as it was. -/
def serve (e : Engine) (now : Instant) (tenant : TenantId) (cause : String) (r : Request) :
    Except Fault Unit × Engine :=
  if r.isEmpty then (.ok (), e)
  else
    let e := { e with ids := e.ids.skip r.draws }
    match e.store.get >>= fun s => Request.serve s e.ids now tenant r with
    | .ok x => (.ok (), e.perform cause x)
    | .error f => (.error f, { e with store := e.store.afterFault f })

/-- Handles a batch of payloads of one kind for a tenant. -/
def handleTasks (e : Engine) (now : Instant) (tenant : TenantId) (kindName : String)
    (payloads : List ByteArray) : Except Fault Unit × Engine :=
  match MessageKind.parse kindName with
  | .error f => (.error f, e)
  | .ok kind =>
    let (result, e) : Except Fault Unit × Engine := match Request.ofPayloads kind payloads with
      | .error f => (.error f, e)
      | .ok r => e.serve now tenant kind.name r
    let (result, e) := e.recovered kindName result
    (result, e.countHandled kind result)

/-- Makes one pass of a sweep, and tells whether there may be more to do. -/
def sweepOnce (e : Engine) (now : Instant) (kind : Sweep) (tenant : TenantId) :
    Except Fault Bool × Engine :=
  match e.store.get >>= fun s => sweep kind s e.ids now tenant e.settings.sweepBatchLimit with
  | .ok x => (.ok x.more, e.perform kind.name x.effect)
  | .error f => (.error f, { e with store := e.store.afterFault f })

/-- Sees to it that the store has partitions for today and tomorrow. -/
def maintainTasks (e : Engine) (now : Instant) : Except Fault Unit × Engine :=
  let (result, e) := e.write fun s => .ok ((), s.createPartitions now)
  match result with
  | .ok _ => (.ok (), e.count (.partitions "tasks" "ensured") 1)
  | .error f => (.error f, e)

end WorkflowEngine.Engine
