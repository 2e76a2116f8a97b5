import WorkflowEngine.Effect.Posting

/-!
The periodic sweeps over the tasks of a tenant: attempts that missed a deadline and attempts whose
worker is gone are failed through no fault of their own. A sweep handles a limited number at a time
and tells whether there may be more.
-/

namespace WorkflowEngine

/-- What a pass of a sweep comes to. -/
structure SweepEffect where
  effect : Effect
  /-- The pass reached its limit. -/
  more : Bool

/-- The attempts that a failure result names. -/
def FailureResult.moved (r : FailureResult) : List Attempt :=
  r.released.map (·.attempt) ++ r.retried.map (·.failedAttempt)

namespace Overdue

def eventType (o : Overdue) : EventType :=
  match o.kind with
  | .schedule => .schedulingTimedOut
  | .step => .timedOut

def reason (o : Overdue) : String :=
  match o.kind with
  | .schedule =>
    s!"task waited in the queue longer than its schedule timeout of {o.task.scheduleTimeoutSecs}s"
  | .step => s!"task exceeded its step timeout of {o.task.stepTimeoutSecs}s"

end Overdue

/-- Fails the first attempts that missed a deadline; those that were running are stopped. -/
def sweepTimeouts (s : Store) (ids : IdSource) (now : Instant) (tenant : TenantId) (limit : Nat) :
    Except Fault SweepEffect :=
  match s.listOverdue tenant limit now with
  | [] => .ok ⟨{ store := s, ids }, false⟩
  | overdue => do
    let failures := overdue.map fun o => Failure.mk o.task.attempt false o.reason
    let (result, s, postings, counts) ← failAndAnnounce s now tenant failures
    let moved := overdue.filter fun o => result.moved.contains o.task.attempt
    let monitoring := moved.map fun o =>
      { MonitoringPayload.ofAttempt now o.task.attempt o.eventType with
        workerId := o.task.workerId, message := some o.reason }
    let running := moved.filterMap fun o => do
      guard (o.kind == .step)
      return (o.task.attempt, ← o.task.workerId)
    let effect : Effect := {
      store := s
      ids
      postings := postings ++ Posting.monitoring tenant monitoring ++ Posting.stops s tenant running
      counts := counts ++ [(.swept .timeout, result.moved.length)] }
    return ⟨effect, decide (limit ≤ overdue.length)⟩

def workerInactive : String := "worker became inactive"

/-- Fails the first attempts whose worker is gone. -/
def sweepStranded (s : Store) (ids : IdSource) (now : Instant) (tenant : TenantId) (limit : Nat) :
    Except Fault SweepEffect :=
  match s.listStranded tenant limit with
  | [] => .ok ⟨{ store := s, ids }, false⟩
  | stranded => do
    let failures := stranded.map fun t => Failure.mk t.task false workerInactive
    let (result, s, postings, counts) ← failAndAnnounce s now tenant failures
    let moved := stranded.filter fun t => result.moved.contains t.task
    let monitoring := moved.map fun t =>
      { MonitoringPayload.ofAttempt now t.task .reassigned with
        workerId := some t.worker, message := some workerInactive }
    let effect : Effect := {
      store := s
      ids
      postings := postings ++ Posting.monitoring tenant monitoring
      counts := counts ++ [(.swept .reassign, result.moved.length)] }
    return ⟨effect, decide (limit ≤ stranded.length)⟩

def sweep (kind : Sweep) : Store → IdSource → Instant → TenantId → Nat → Except Fault SweepEffect :=
  match kind with
  | .timeout => sweepTimeouts
  | .reassign => sweepStranded

end WorkflowEngine
