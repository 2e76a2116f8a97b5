import WorkflowEngine.Identifier

/-!
A pool runs one operation for any number of tenants, but never twice at once for the same. A request
that comes while a run is in flight is remembered and makes it go once more; an operation that has
more to do is repeated at once. Nothing starts once the pool is cancelled.
-/

namespace WorkflowEngine

/-- How an invocation of the operation ended. -/
inductive Ending where
  /-- There is more to do. -/
  | more
  | done
  | failed
  | timedOut
  | panicked
  deriving DecidableEq, Repr

structure Pool where
  /-- The tenants with a run in flight, and whether it was asked to go once more. -/
  inFlight : List (TenantId × Bool) := []
  /-- The tenants whose run is alive. -/
  live : List TenantId := []
  cancelled : Bool := false
  deriving DecidableEq, Repr

namespace Pool

def isRunning (p : Pool) (t : TenantId) : Bool := p.inFlight.any (·.1 == t)

/-- Whether the run of a tenant was asked to go once more. -/
def again (p : Pool) (t : TenantId) : Bool := p.inFlight.any fun e => e.1 == t && e.2

/-- Asks for a run. Starts one, unless one is in flight, which is asked to go once more then. -/
def request (p : Pool) (t : TenantId) : Bool × Pool :=
  if p.cancelled then (false, p)
  else if p.isRunning t then
    (false, { p with inFlight := p.inFlight.map fun e => if e.1 == t then (t, true) else e })
  else (true, { p with inFlight := p.inFlight ++ [(t, false)], live := p.live ++ [t] })

/-- Ends the run of a tenant, which may run again. -/
def release (p : Pool) (t : TenantId) : Pool :=
  { p with inFlight := p.inFlight.filter (·.1 != t), live := p.live.filter (· != t) }

/-- What follows when an invocation for a tenant has ended; tells whether it is invoked again. A panic
ends the run and nothing else. -/
def finish (p : Pool) (t : TenantId) (ending : Ending) : Bool × Pool :=
  match ending with
  | .panicked => (false, { p with live := p.live.filter (· != t) })
  | .more => if p.cancelled then (false, p.release t) else (true, p)
  | .done | .failed | .timedOut =>
    if p.cancelled then (false, p.release t)
    else if p.again t then
      (true, { p with inFlight := p.inFlight.map fun e => if e.1 == t then (t, false) else e })
    else (false, p.release t)

/-- Cancels the pool. Runs notice at their next pause. -/
def cancel (p : Pool) : Pool := { p with cancelled := true }

end Pool

end WorkflowEngine
