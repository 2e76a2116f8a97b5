import WorkflowEngine.Bus.Consumer
import WorkflowEngine.Engine.Supervision
import WorkflowEngine.Host.Clock
import WorkflowEngine.Host.Requests
import WorkflowEngine.Pool.State

/-!
A host runs the engine: consumers take messages from the bus, managers evaluate strategies, services
sweep and fold. All of them are loops that take turns; a loop whose turn has come runs until it waits
for a message, a request or a moment. `Host` is the state of all this at one moment.
-/

namespace WorkflowEngine

abbrev LoopId := Nat
abbrev ManagerId := Nat
abbrev ServiceId := Nat
abbrev ConsumerId := Nat

/-- What a loop does. -/
inductive Duty where
  /-- Takes messages from the bus. -/
  | consume (c : ConsumerId)
  /-- Evaluates the strategy of a manager. -/
  | evaluate (m : ManagerId)
  /-- Notes whether the strategy of a manager is in use. -/
  | refresh (m : ManagerId)
  /-- Announces what came of evaluations. -/
  | publish
  /-- Keeps a manager for each active strategy. -/
  | synchronize
  | sweep (s : ServiceId) (kind : Sweep)
  | maintainTasks (s : ServiceId)
  | reconcile (s : ServiceId)
  | maintainModel (s : ServiceId)
  deriving DecidableEq, Repr

/-- What a loop waits for, beside the order to stop. -/
inductive LoopState where
  /-- For something to do. -/
  | idle
  /-- For the next tick, or for something to do before it. -/
  | ticking (t : Ticker)
  /-- For the lock of its strategy, until some moment. -/
  | locking (t : Ticker) (deadline : Nat)
  | ended
  deriving DecidableEq, Repr

structure Loop where
  duty : Duty
  state : LoopState := .idle
  deriving DecidableEq, Repr

/-- What may have its turn. -/
inductive Process where
  | loop (id : LoopId)
  /-- A run of a sweep for one tenant. -/
  | sweepRun (s : ServiceId) (kind : Sweep) (tenant : TenantId)
  /-- A request on its way to a manager. -/
  | request (m : ManagerId)
  deriving DecidableEq, Repr

/-- Who takes the evaluations of a manager and stops it. -/
inductive Owner where
  | supervisor
  | guest
  deriving DecidableEq, Repr

structure Manager where
  strategy : Strategy
  /-- The tenant that the strategy is evaluated for. -/
  tenantId : TenantId
  owner : Owner
  evaluator : LoopId
  refresher : LoopId
  requests : Requests := {}
  cancelled : Bool := false
  /-- Somebody has waited, or waits, for its loops to end. -/
  joined : Bool := false

structure Supervisor where
  /-- The managers at work, by strategy. -/
  managers : List (StrategyId × ManagerId) := []
  /-- Evaluations to be announced. -/
  results : List Evaluation := []
  started : Bool := false
  cancelled : Bool := false
  loops : List LoopId := []

/-- Loops that are started and stopped together. -/
structure Service where
  loops : List LoopId := []
  cancelled : Bool := false
  timeouts : Pool := {}
  reassignments : Pool := {}

namespace Service

def pool (s : Service) : Sweep → Pool
  | .timeout => s.timeouts
  | .reassign => s.reassignments

def setPool (s : Service) (p : Pool) : Sweep → Service
  | .timeout => { s with timeouts := p }
  | .reassign => { s with reassignments := p }

end Service

/-- Who handles what a consumer hands over. -/
inductive Handler where
  /-- Batches are written down; the outcomes are given in advance. -/
  | recorder (failures : List Bool)
  | tasks (s : ServiceId)
  | readModel (s : ServiceId)
  | supervisor
  deriving DecidableEq, Repr

/-- A batch and when it was handed over. -/
structure Handover where
  elapsed : Nat
  batch : Batch

/-- Earlier hand-overs come first, then those of smaller tenants, then those of smaller kinds. -/
def Handover.before (a b : Handover) : Bool :=
  decide (a.elapsed < b.elapsed) || (a.elapsed == b.elapsed &&
    (decide (a.batch.tenantId.value < b.batch.tenantId.value) ||
      (a.batch.tenantId == b.batch.tenantId && decide (a.batch.kindName ≤ b.batch.kindName))))

/-- A consumer at work. -/
structure Consumption where
  consumer : Consumer
  subscriber : Nat
  loop : LoopId
  handler : Handler
  flushInterval : Nat
  cancelled : Bool := false
  /-- What was written down. -/
  record : List Handover := []
  /-- How many batches were handed over. -/
  calls : Nat := 0

structure Host where
  engine : Engine := {}
  clock : Clock
  /-- The partition of tenants that the supervisor serves. -/
  partition : String
  /-- The strategies whose lock is held by a guest. -/
  locked : List StrategyId := []
  loops : List Loop := []
  managers : List Manager := []
  consumers : List Consumption := []
  services : List Service := []
  supervisor : Supervisor := {}
  /-- Evaluations of the managers that belong to guests. -/
  guestResults : List Evaluation := []
  /-- The managers that belong to guests are stopped. -/
  guestsCancelled : Bool := false
  /-- What has its turn next, in order. -/
  ready : List Process := []
  /-- When loops wake up by themselves, in the order in which they began to wait. -/
  timers : List (Nat × LoopId) := []

namespace Host

def ofSettings (settings : Settings) (partition : String) (start : Instant) : Host where
  engine := .ofSettings settings
  clock := { origin := start }
  partition := partition

def settings (h : Host) : Settings := h.engine.settings

def now (h : Host) : Instant := h.clock.now

def elapsed (h : Host) : Nat := h.clock.elapsed

/-- Does something with the engine. -/
def act {α : Type} (h : Host) (f : Engine → α × Engine) : α × Host :=
  let (a, engine) := f h.engine
  (a, { h with engine })

def modifyManager (h : Host) (m : ManagerId) (f : Manager → Manager) : Host :=
  { h with managers := h.managers.modify m f }

def modifyService (h : Host) (s : ServiceId) (f : Service → Service) : Host :=
  { h with services := h.services.modify s f }

def modifyConsumer (h : Host) (c : ConsumerId) (f : Consumption → Consumption) : Host :=
  { h with consumers := h.consumers.modify c f }

/-! ### Turns -/

/-- Gives a turn to a process, behind those that have theirs. -/
def wake (h : Host) (p : Process) : Host :=
  if h.ready.contains p then h else { h with ready := h.ready ++ [p] }

def wakeAll (h : Host) (loops : List LoopId) : Host := loops.foldl (fun h l => h.wake (.loop l)) h

/-- Lets a loop go on at once. -/
def goOn (h : Host) (l : LoopId) : Host := { h with ready := .loop l :: h.ready }

/-- Wakes a loop up at some moment. -/
def arm (h : Host) (l : LoopId) (moment : Nat) : Host :=
  if h.timers.contains (moment, l) then h else { h with timers := h.timers ++ [(moment, l)] }

def setLoop (h : Host) (l : LoopId) (state : LoopState) : Host :=
  { h with loops := h.loops.modify l fun x => { x with state } }

def hasEnded (h : Host) (l : LoopId) : Bool := (h.loops[l]?).all (·.state == .ended)

/-- Ends a loop. -/
def endLoop (h : Host) (l : LoopId) : Host := h.setLoop l .ended

/-- Adds a loop, which has its turn behind the others. -/
def spawn (h : Host) (duty : Duty) : LoopId × Host :=
  let id := h.loops.length
  (id, { h with loops := h.loops ++ [Loop.mk duty .idle] }.wake (.loop id))

/-! ### Orders to stop -/

def managerStopped (h : Host) (m : Manager) : Bool :=
  m.cancelled || match m.owner with
    | .supervisor => h.supervisor.cancelled
    | .guest => h.guestsCancelled

def serviceStopped (h : Host) (s : ServiceId) : Bool := (h.services[s]?).all (·.cancelled)

def consumerStopped (h : Host) (c : Consumption) : Bool :=
  match c.handler with
  | .recorder _ => c.cancelled
  | .tasks s | .readModel s => h.serviceStopped s
  | .supervisor => h.supervisor.cancelled

/-- A loop with the duty shall stop. -/
def isStopped (h : Host) : Duty → Bool
  | .consume c => (h.consumers[c]?).all h.consumerStopped
  | .evaluate m | .refresh m => (h.managers[m]?).all h.managerStopped
  | .publish | .synchronize => h.supervisor.cancelled
  | .sweep s _ | .maintainTasks s | .reconcile s | .maintainModel s => h.serviceStopped s

end Host

end WorkflowEngine
