import WorkflowEngine.Engine.ReadModel
import WorkflowEngine.Engine.Tasks
import WorkflowEngine.Host.Supervision

/-!
The turns of the loops. In its turn a loop does one thing, if there is one to do, and has another turn
at once; otherwise it waits. An order to stop comes before all else, and a tick before other work.
-/

namespace WorkflowEngine.Host

/-- Managers that were stopped end in their own time. -/
def leave (_ : List ManagerId) (h : Host) : Host := h

/-! ### Consumers -/

/-- Hands a batch to its handler. -/
def handOver (h : Host) (id : ConsumerId) (x : Consumption) (b : Batch) : Except Fault Unit × Host :=
  match x.handler with
  | .recorder failures =>
    (if (failures[x.calls]?).getD false then .error (.ofStorage "told to fail") else .ok (),
      h.modifyConsumer id fun x =>
        { x with record := x.record ++ [⟨h.elapsed, b⟩], calls := x.calls + 1 })
  | .tasks _ => h.act (·.handleTasks h.now b.tenantId b.kindName b.payloads)
  | .readModel _ => h.act (·.handleReadModel h.now b.tenantId b.kindName b.payloads)
  | .supervisor => h.handleNotices leave b.tenantId b.kindName b.payloads

/-- Hands a batch over, and sends its messages again if that fails. -/
def deliverBatch (h : Host) (id : ConsumerId) (b : Batch) : Host :=
  match h.consumers[id]? with
  | none => h
  | some x =>
    match h.handOver id x b with
    | (.ok _, h) => h
    | (.error _, h) =>
      b.redeliveries.foldl (fun h m => (h.act (·.send x.consumer.queue m)).2) h

/-- Hands over all that a consumer holds. -/
def flushConsumer (h : Host) (id : ConsumerId) : Host :=
  match h.consumers[id]? with
  | none => h
  | some x =>
    let (batches, consumer) := x.consumer.flush
    batches.foldl (fun h b => h.deliverBatch id b) (h.modifyConsumer id fun x => { x with consumer })

/-- Takes a message in. -/
def takeMessage (h : Host) (id : ConsumerId) (x : Consumption) (m : Message) : Host :=
  let (full, consumer) := x.consumer.receive m
  let h := h.modifyConsumer id fun x => { x with consumer }
  match full with
  | some b => h.deliverBatch id b
  | none => h

/-- Ends a consumer; what is left in its inbox is lost. -/
def endConsumer (h : Host) (l : LoopId) (x : Consumption) : Host :=
  { h with engine := { h.engine with bus := h.engine.bus.unsubscribe x.subscriber } }.endLoop l

def turnConsumer (h : Host) (l : LoopId) (state : LoopState) (id : ConsumerId) : Host :=
  match h.consumers[id]? with
  | none => h.endLoop l
  | some x =>
    match state with
    | .ticking t =>
      if h.consumerStopped x then (h.flushConsumer id).endConsumer l x
      else if t.isDue h.elapsed then
        ((h.setLoop l (.ticking (t.advance h.elapsed))).flushConsumer id).goOn l
      else
        match h.act fun e =>
            let (m, bus) := e.bus.receive x.subscriber
            (m, { e with bus }) with
        | (some m, h) => (h.takeMessage id x m).goOn l
        | (none, h) => h.arm l t.next
    | _ =>
      match Ticker.start? h.elapsed x.flushInterval with
      | some t => (h.setLoop l (.ticking t)).goOn l
      | none => h.endConsumer l x

/-! ### Managers -/

/-- A request arrives at its manager, or waits until there is room for it. -/
def deliverRequest (h : Host) (id : ManagerId) : Host :=
  match h.managers[id]? with
  | none => h
  | some m =>
    if h.hasEnded m.evaluator then h.modifyManager id fun m => { m with requests := m.requests.abandon }
    else
      (h.modifyManager id fun m => { m with requests := m.requests.deliver }).wake (.loop m.evaluator)

/-- Passes an evaluation on to whom it concerns. -/
def report (h : Host) (owner : Owner) (e : Evaluation) : Host :=
  match owner with
  | .guest => { h with guestResults := h.guestResults ++ [e] }
  | .supervisor =>
    let publishers := h.supervisor.loops.filter fun l => (h.loops[l]?).any (·.duty == .publish)
    { h with supervisor := { h.supervisor with results := h.supervisor.results ++ [e] } }.wakeAll
      publishers

/-- Evaluates the strategy of a manager. A fault is passed over, and so is an evaluation that decided
nothing. -/
def evaluateNow (h : Host) (m : Manager) : Host :=
  match h.act (·.evaluate m.tenantId m.strategy) with
  | (.error _, h) => h
  | (.ok summary, h) =>
    if summary.isEmpty then h else h.report m.owner ⟨m.tenantId, m.strategy.id, summary⟩

/-- Evaluates the strategy of a manager, or waits for its lock as long as the settings allow. -/
def beginEvaluation (h : Host) (l : LoopId) (m : Manager) (t : Ticker) : Host :=
  let deadline := h.elapsed + h.settings.lockTimeout.millis
  if !h.locked.contains m.strategy.id then ((h.setLoop l (.ticking t)).evaluateNow m).goOn l
  else if deadline ≤ h.elapsed then (h.setLoop l (.ticking t)).goOn l
  else (h.setLoop l (.locking t deadline)).arm l deadline

/-- Ends the evaluations of a manager; nobody takes its requests any more. -/
def endEvaluator (h : Host) (l : LoopId) (id : ManagerId) : Host := (h.endLoop l).wake (.request id)

def turnEvaluator (h : Host) (l : LoopId) (state : LoopState) (id : ManagerId) : Host :=
  match h.managers[id]? with
  | none => h.endLoop l
  | some m =>
    match state with
    | .locking t deadline =>
      if !h.locked.contains m.strategy.id then ((h.setLoop l (.ticking t)).evaluateNow m).goOn l
      else if deadline ≤ h.elapsed then (h.setLoop l (.ticking t)).goOn l
      else h
    | .ticking t =>
      if h.managerStopped m then h.endEvaluator l id
      else if t.isDue h.elapsed then h.beginEvaluation l m (t.advance h.elapsed)
      else if m.requests.waiting then
        ((h.modifyManager id fun m => { m with requests := m.requests.take }).wake
          (.request id)).beginEvaluation l m t
      else h.arm l t.next
    | _ =>
      match Ticker.start? h.elapsed h.settings.concurrencyTick.millis with
      | some t => (h.setLoop l (.ticking t)).goOn l
      | none => h.endEvaluator l id

/-! ### The supervisor -/

/-- Announces the first evaluation that waits for it. -/
def turnPublisher (h : Host) (l : LoopId) : Host :=
  if h.supervisor.cancelled then h.endLoop l
  else
    match h.supervisor.results with
    | [] => h
    | e :: rest =>
      (({ h with supervisor := { h.supervisor with results := rest } }.announce leave e).2).goOn l

/-! ### Services -/

/-- Asks for a run of a sweep for a tenant. -/
def requestSweep (h : Host) (s : ServiceId) (kind : Sweep) (tenant : TenantId) : Host :=
  match h.services[s]? with
  | none => h
  | some service =>
    let (started, pool) := (service.pool kind).request tenant
    let h := h.modifyService s (·.setPool pool kind)
    if started then h.wake (.sweepRun s kind tenant) else h

/-- Asks for runs of a sweep for all tenants. -/
def requestSweeps (h : Host) (s : ServiceId) (kind : Sweep) : Host :=
  match h.engine.read (·.tenants) with
  | .error _ => h
  | .ok tenants => tenants.foldl (fun h t => h.requestSweep s kind t.id) h

/-- Makes passes of a sweep while there is more to do, but no more than a number of times. -/
def sweepPasses (now : Instant) (kind : Sweep) (tenant : TenantId) : Nat → Engine → Ending × Engine
  | 0, e => (.done, e)
  | passes + 1, e =>
    match e.sweepOnce now kind tenant with
    | (.ok true, e) => sweepPasses now kind tenant passes e
    | (.ok false, e) => (.done, e)
    | (.error (.panic _), e) => (.panicked, e)
    | (.error _, e) => (.failed, e)

/-- More passes than a sweep can need: each takes an attempt from some task, and a task has one more
than it has internal retries. -/
def sweepBound (e : Engine) : Nat :=
  match e.store with
  | .sound s => s.tasks.length * (s.internalRetries.toNat + 1) + 1
  | .poisoned => 1

/-- Runs a sweep for a tenant. -/
def runSweep (h : Host) (s : ServiceId) (kind : Sweep) (tenant : TenantId) : Host :=
  let (ending, h) := h.act fun e => sweepPasses h.now kind tenant (sweepBound e) e
  h.modifyService s fun service =>
    service.setPool ((service.pool kind).finish tenant ending).2 kind

/-- How long a loop waits between its ticks. -/
def period (h : Host) : Duty → Nat
  | .refresh _ | .synchronize => h.settings.livenessTick.millis
  | .sweep _ .timeout => h.settings.timeoutSweepInterval.millis
  | .sweep _ .reassign => h.settings.reassignSweepInterval.millis
  | .maintainTasks _ | .maintainModel _ => h.settings.partitionMaintenanceInterval.millis
  | .reconcile _ => h.settings.reconcileTick.millis
  | .evaluate _ => h.settings.concurrencyTick.millis
  | .consume _ | .publish => 0

/-- The first tick passes unused, for its work was done before the loop started. -/
def skipsFirstTick : Duty → Bool
  | .synchronize | .maintainTasks _ | .maintainModel _ => true
  | _ => false

/-- Does what is due at a tick; tells whether the loop survives it. Faults are passed over. -/
def tick (h : Host) : Duty → Bool × Host
  | .refresh id =>
    match h.managers[id]? with
    | none => (true, h)
    | some m => (true, (h.act (·.refreshActive m.tenantId m.strategy.id)).2)
  | .synchronize => (true, (h.syncAll leave).2)
  | .sweep s kind => (true, h.requestSweeps s kind)
  | .maintainTasks _ => (true, (h.act (·.maintainTasks h.now)).2)
  | .reconcile _ =>
    match h.act (·.reconcileAll h.now false) with
    | (.error (.panic _), h) => (false, h)
    | (_, h) => (true, h)
  | .maintainModel _ => (true, (h.act (·.maintainModel h.now)).2)
  | .consume _ | .evaluate _ | .publish => (true, h)

/-- The turn of a loop that does nothing but what is due at its ticks. -/
def turnTicking (h : Host) (l : LoopId) (state : LoopState) (duty : Duty) : Host :=
  match state with
  | .ticking t =>
    if h.isStopped duty then h.endLoop l
    else if t.isDue h.elapsed then
      match (h.setLoop l (.ticking (t.advance h.elapsed))).tick duty with
      | (true, h) => h.goOn l
      | (false, h) => h.endLoop l
    else h.arm l t.next
  | _ =>
    match Ticker.start? h.elapsed (h.period duty) with
    | none => h.endLoop l
    | some t =>
      (h.setLoop l (.ticking (if skipsFirstTick duty then t.advance h.elapsed else t))).goOn l

/-! ### Turns -/

/-- The turn of a loop. -/
def turnLoop (h : Host) (l : LoopId) (x : Loop) : Host :=
  match x.state, x.duty with
  | .ended, _ => h
  | state, .consume c => h.turnConsumer l state c
  | state, .evaluate m => h.turnEvaluator l state m
  | _, .publish => h.turnPublisher l
  | state, duty => h.turnTicking l state duty

/-- The turn of a process. -/
def turn (h : Host) : Process → Host
  | .request m => h.deliverRequest m
  | .sweepRun s kind tenant => h.runSweep s kind tenant
  | .loop l =>
    match h.loops[l]? with
    | none => h
    | some x => h.turnLoop l x

end WorkflowEngine.Host
