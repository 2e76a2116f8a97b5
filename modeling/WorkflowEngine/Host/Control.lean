import WorkflowEngine.Host.Progress

/-!
What a guest of a host can ask for: to hold the lock of a strategy, to start and stop managers,
consumers, services and the supervisor, and to have published messages handled.
-/

namespace WorkflowEngine

/-- The services a host can run. -/
inductive ServiceKind where
  /-- Handles tasks and sweeps over them. -/
  | tasks
  /-- Takes in events and folds them. -/
  | readModel
  deriving DecidableEq, Repr

namespace Host

/-! ### Locks -/

/-- Waits for the lock of a strategy, as long as the settings allow. -/
def awaitLock (h : Host) (strategy : StrategyId) : Except Fault Unit × Host :=
  if h.locked.contains strategy then
    (.error (.lockTimeout strategy h.settings.lockTimeout), h.advance h.settings.lockTimeout.millis)
  else (.ok (), h)

/-- Takes the lock of a strategy and holds it. -/
def lock (h : Host) (strategy : StrategyId) : Except Fault Unit × Host :=
  match h.awaitLock strategy with
  | (.ok _, h) => (.ok (), { h with locked := strategy :: h.locked })
  | (.error f, h) => (.error f, h)

/-- The evaluators that wait for the lock of a strategy. -/
def lockWaiters (h : Host) (strategy : StrategyId) : List LoopId :=
  (h.managers.filter fun m => m.strategy.id == strategy &&
    (h.loops[m.evaluator]?).any fun x => x.state matches .locking ..).map (·.evaluator)

/-- Gives the lock of a strategy up; tells whether it was held. -/
def unlock (h : Host) (strategy : StrategyId) : Bool × Host :=
  if h.locked.contains strategy then
    (true, { h with locked := h.locked.erase strategy }.wakeAll (h.lockWaiters strategy))
  else (false, h)

/-- Runs a strategy under its lock. -/
def runStrategy (h : Host) (tenant : TenantId) (strategy : Strategy) :
    Except Fault Admission.Summary × Host :=
  match h.awaitLock strategy.id with
  | (.error f, h) => (.error f, h)
  | (.ok _, h) => h.act (·.runStrategy tenant strategy)

/-- Runs a strategy and announces what came of it, whether or not that succeeds. -/
def runAndAnnounce (h : Host) (tenant : TenantId) (strategy : Strategy) :
    Except Fault (Admission.Summary × Except Fault Unit) × Host :=
  match h.runStrategy tenant strategy with
  | (.error f, h) => (.error f, h)
  | (.ok summary, h) =>
    let (announced, h) := h.announce joinManagers ⟨tenant, strategy.id, summary⟩
    (.ok (summary, announced), h)

/-! ### Managers of guests -/

def startGuestManager (h : Host) (tenant : TenantId) (strategy : Strategy) : ManagerId × Host :=
  h.startManager tenant strategy .guest

/-- Stops a manager and waits for its end, unless somebody did so before. -/
def cleanUp (h : Host) (id : ManagerId) : Host :=
  if (h.managers[id]?).any (!·.joined) then joinManagers [id] (h.cancelManager id) else h

/-- Orders all managers of guests to stop. -/
def cancelGuests (h : Host) : Host :=
  let loops := (h.managers.filter (·.owner == .guest)).flatMap fun m => [m.evaluator, m.refresher]
  { h with guestsCancelled := true }.wakeAll loops

/-- Takes the evaluations that the managers of guests made. -/
def takeResults (h : Host) : List Evaluation × Host := (h.guestResults, { h with guestResults := [] })

/-! ### Consumers -/

/-- Subscribes a consumer to a queue. -/
def startConsumer (h : Host) (queue : QueueName) (maxBatch flushInterval : Nat) (handler : Handler) :
    ConsumerId × LoopId × Host :=
  let id := h.consumers.length
  let (subscriber, h) := h.act fun e =>
    let (subscriber, bus) := e.bus.subscribe queue
    (subscriber, { e with bus })
  let (loop, h) := h.spawn (.consume id)
  (id, loop, { h with
    consumers := h.consumers ++
      [{ consumer := { queue, maxBatch }, subscriber, loop, handler, flushInterval }] })

/-- A consumer as the settings would have it. -/
def startOwnConsumer (h : Host) (queue : QueueName) (handler : Handler) : LoopId × Host :=
  (h.startConsumer queue h.settings.bufferMaxBatch h.settings.bufferFlushInterval.millis handler).2

/-- Stops a consumer and waits for its end. -/
def stopConsumer (h : Host) (id : ConsumerId) : Host :=
  match h.consumers[id]? with
  | none => h
  | some x =>
    ((h.modifyConsumer id fun x => { x with cancelled := true }).wake (.loop x.loop)).joinLoops [x.loop]

/-- Takes what a consumer has written down, in the order of `Handover.before`. -/
def takeRecord (h : Host) (id : ConsumerId) : List Handover × Host :=
  (((h.consumers[id]?.map (·.record)).getD []).mergeSort Handover.before,
    h.modifyConsumer id fun x => { x with record := [] })

/-! ### The supervisor -/

/-- Starts the loops of the supervisor, once. -/
def startSupervisor (h : Host) : Except Fault Unit × Host :=
  if h.supervisor.started then
    (.error (.configuration "concurrency supervisor already started"), h)
  else
    let h := { h with supervisor := { h.supervisor with started := true } }
    let (_, h) := h.syncAll joinManagers
    let (consumer, h) := h.startOwnConsumer (.scheduler h.partition) .supervisor
    let (publisher, h) := h.spawn .publish
    let (synchronizer, h) := h.spawn .synchronize
    let loops := [consumer, publisher, synchronizer]
    (.ok (), { h with supervisor := { h.supervisor with loops } })

/-- Stops the supervisor and its managers and waits for their end. -/
def stopSupervisor (h : Host) : Host :=
  let ids := h.supervisor.managers.map (·.2)
  let h := { h with supervisor := { h.supervisor with cancelled := true, managers := [] } }
  let h := joinManagers ids ((ids.foldl cancelManager h).wakeAll h.supervisor.loops)
  h.joinLoops h.supervisor.loops

/-! ### Services -/

/-- Adds a service without loops. -/
def addService (h : Host) : ServiceId × Host :=
  (h.services.length, { h with services := h.services ++ [{}] })

/-- Starts loops with the given duties. -/
def spawnAll (h : Host) : List Duty → List LoopId × Host
  | [] => ([], h)
  | d :: rest =>
    let (l, h) := h.spawn d
    let (ls, h) := h.spawnAll rest
    (l :: ls, h)

/-- Prepares the partitions that a service writes to. -/
def prepare (h : Host) : ServiceKind → Except Fault Unit × Host
  | .tasks => h.act (·.maintainTasks h.now)
  | .readModel =>
    let (result, h) := h.act (·.maintainModel h.now)
    (result.map fun _ => (), h)

/-- Starts a service, once its partitions are there. -/
def startService (h : Host) (kind : ServiceKind) : Except Fault ServiceId × Host :=
  match h.prepare kind with
  | (.error f, h) => (.error f, h)
  | (.ok _, h) =>
    let (s, h) := h.addService
    let (consumer, h) := match kind with
      | .tasks => h.startOwnConsumer .tasks (.tasks s)
      | .readModel => h.startOwnConsumer .readModel (.readModel s)
    let (others, h) := match kind with
      | .tasks => h.spawnAll [.sweep s .timeout, .sweep s .reassign, .maintainTasks s]
      | .readModel => h.spawnAll [.reconcile s, .maintainModel s]
    (.ok s, h.modifyService s fun x => { x with loops := consumer :: others })

/-- How many loops of a service are alive. -/
def liveLoops (h : Host) (s : ServiceId) : Nat :=
  (((h.services[s]?.map (·.loops)).getD []).filter (!h.hasEnded ·)).length

/-- Stops a service and waits for the end of its loops. -/
def stopService (h : Host) (s : ServiceId) : Host :=
  match h.services[s]? with
  | none => h
  | some x =>
    let h := h.modifyService s fun x =>
      { x with cancelled := true, timeouts := x.timeouts.cancel, reassignments := x.reassignments.cancel }
    (h.wakeAll x.loops).joinLoops x.loops

/-! ### Messages by hand -/

/-- Has a message handled by whom its queue belongs to. -/
def handleMessage (h : Host) (queue : QueueName) (m : Message) : Except Fault Unit × Host :=
  match queue with
  | .tasks => h.act (·.handleTasks h.now m.tenantId m.kindName m.payloads)
  | .readModel => h.act (·.handleReadModel h.now m.tenantId m.kindName m.payloads)
  | .dispatcher _ | .scheduler _ => h.handleNotices joinManagers m.tenantId m.kindName m.payloads

def handleMessages (queue : QueueName) :
    List Message → Host → List (String × Except Fault Unit) × Host
  | [], h => ([], h)
  | m :: rest, h =>
    let (result, h) := h.handleMessage queue m
    let (results, h) := handleMessages queue rest h
    ((m.kindName, result) :: results, h)

/-- Has the messages handled that were published to a queue behind the first ones, then those that
were published meanwhile, for a number of rounds. Gives the outcomes and how many messages there are
then. -/
def relay (queue : QueueName) : Nat → Nat → Host → List (String × Except Fault Unit) × Nat × Host
  | 0, done, h => ([], done, h)
  | rounds + 1, done, h =>
    let published := h.engine.bus.published queue
    match published.drop done with
    | [] => ([], done, h)
    | fresh =>
      let (results, h) := handleMessages queue fresh h
      let (more, done, h) := relay queue rounds published.length h
      (results ++ more, done, h)

end Host

end WorkflowEngine
