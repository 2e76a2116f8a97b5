import WorkflowEngine.Admission.Policy
import WorkflowEngine.Store.Basic

/-!
Running a strategy: its policy decides about its slots, and the decisions are carried out.
-/

namespace WorkflowEngine.Store

def isCurrent (s : Store) (slot : Slot) : Bool :=
  (s.task? slot.task.id).any (·.accepts slot.task)

/-- Drops the slots of a strategy whose attempt is over. -/
def pruneSlots (s : Store) (strategy : StrategyId) : Store :=
  { s with slots := s.slots.filter fun x => !(x.strategyId == strategy) || s.isCurrent x }

def candidate (slot : Slot) : Admission.Candidate where
  task := slot.task
  key := slot.key
  sortId := slot.sortId
  filled := slot.filled
  queue := slot.queue
  next := slot.next

/-- Moves an attempt on to the next strategy, unless it is there already. -/
def deferTo (s : Store) (next : StrategyId) (slot : Slot) (d : Admission.Decision) : Store :=
  if (s.slot? next d.task.id).isSome then s
  else match s.task? d.task.id with
    | none => s
    | some t =>
      match t.concurrencyStrategyIds.findIdx? (· == next) with
      | none => s
      | some i =>
        s.insertSlot slot.tenantId next d.task ((t.concurrencyKeys[i]?).getD "") d.queue
          (t.concurrencyStrategyIds.drop (i + 1))

/-- Carries out one decision. A cancelled attempt leaves every strategy and the queue at once. -/
def carryOut (s : Store) (strategy : StrategyId) (d : Admission.Decision) : Store :=
  match d.verdict with
  | .cancelled => s.release d.task.id
  | .queued =>
    match s.slot? strategy d.task.id with
    | none => s
    | some slot => (s.fillSlot strategy d.task.id).insertQueueItem ⟨slot.tenantId, d.task, d.queue⟩
  | .deferred next =>
    match s.slot? strategy d.task.id with
    | none => s
    | some slot => (s.fillSlot strategy d.task.id).deferTo next slot d

/-- What the policy of a strategy decides about the slots of a tenant. -/
def decisions (s : Store) (tenant : TenantId) (strategy : Strategy) : List Admission.Decision :=
  Admission.evaluate strategy.policy strategy.maxConcurrency
    (((s.slotsOf strategy.id).filter (·.tenantId == tenant)).map candidate)

/-- Runs a strategy, as it is registered if it is. -/
def runStrategy (s : Store) (tenant : TenantId) (strategy : Strategy) : Admission.Summary × Store :=
  let current := (s.strategy? strategy.id).getD strategy
  let s := s.pruneSlots current.id
  let ds := s.decisions tenant current
  (.ofDecisions ds, ds.foldl (fun s d => s.carryOut current.id d) s)

def activeStrategies (s : Store) (tenant : TenantId) : List Strategy :=
  s.strategies.filter fun x => x.tenantId == tenant && x.isActive

/-- Notes whether a strategy of the tenant still has slots. -/
def refreshActive (s : Store) (tenant : TenantId) (strategy : StrategyId) : Bool × Store :=
  let hasSlots := (s.slotsOf strategy).any (·.tenantId == tenant)
  if (s.strategy? strategy).any (·.tenantId == tenant) then
    (hasSlots, s.setStrategyActive strategy hasSlots)
  else (false, s)

end WorkflowEngine.Store
