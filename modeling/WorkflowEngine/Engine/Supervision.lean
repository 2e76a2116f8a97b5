import WorkflowEngine.Engine.State
import WorkflowEngine.Store.Admission

/-!
Strategies at work: running one, and announcing what came of it. The attempts that a strategy turned
out are ordered to be cancelled, and the scheduler hears of those that came into queues.
-/

namespace WorkflowEngine

/-- What came of running a strategy. -/
structure Evaluation where
  tenantId : TenantId
  strategyId : StrategyId
  summary : Admission.Summary
  deriving DecidableEq, Repr

/-- The written form. -/
def Evaluation.toJson (e : Evaluation) : Json := .ofMembers [
  ("tenant", encode e.tenantId), ("strategy", .int e.strategyId), ("result", e.summary.toJson)]

namespace Engine

/-- Runs a strategy of a tenant. -/
def runStrategy (e : Engine) (tenant : TenantId) (strategy : Strategy) :
    Except Fault Admission.Summary × Engine :=
  e.write fun s => .ok (s.runStrategy tenant strategy)

def refreshActive (e : Engine) (tenant : TenantId) (strategy : StrategyId) :
    Except Fault Bool × Engine :=
  e.write fun s => .ok (s.refreshActive tenant strategy)

/-- Runs a strategy and counts what it decided. -/
def evaluate (e : Engine) (tenant : TenantId) (strategy : Strategy) :
    Except Fault Admission.Summary × Engine :=
  match e.runStrategy tenant strategy with
  | (.error f, e) => (.error f, e)
  | (.ok summary, e) =>
    let metrics := (e.metrics.addEvaluation strategy.policy).addAll [
      (.decisions strategy.policy "queued", summary.queued.length),
      (.decisions strategy.policy "cancelled", summary.cancelled.length)]
    (.ok summary, { e with metrics })

def turnedOut : String := "cancelled by concurrency strategy"

/-- The order to cancel an attempt that a strategy turned out. -/
def cancellation (p : Admission.Placed) : CancelledPayload where
  taskId := p.task.id
  retryCount := p.task.retryCount
  shouldNotify := true
  eventMessage := some turnedOut

/-- Orders the cancellation of the attempts that a strategy turned out. -/
def orderCancellations (e : Engine) (tenant : TenantId) (placed : List Admission.Placed) :
    List Fault × Engine :=
  if placed.isEmpty then ([], e)
  else
    match e.send .tasks (Message.cancelled tenant (placed.map cancellation)) with
    | (.ok _, e) => ([], e)
    | (.error f, e) => ([f], e.count (.sendFailures MessageKind.taskCancelled.name) placed.length)

/-- Tells the scheduler of the attempts that came into queues. -/
def announceQueued (e : Engine) (tenant : TenantId) (placed : List Admission.Placed) :
    List Fault × Engine :=
  if placed.isEmpty then ([], e)
  else
    match e.read fun s => Posting.created s tenant (placed.map fun p => (p.queue, [])) with
    | .error f => ([f], e)
    | .ok postings => e.postAll postings

end Engine

end WorkflowEngine
