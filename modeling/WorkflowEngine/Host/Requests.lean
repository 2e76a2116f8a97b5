/-!
Requests for an evaluation on their way to a manager. One can lie ready for the evaluation and one
more can be on its way; a request made while one is on its way is taken for the same.
-/

namespace WorkflowEngine

structure Requests where
  /-- One lies ready. -/
  waiting : Bool := false
  /-- One is on its way. -/
  sending : Bool := false
  deriving DecidableEq, Repr

namespace Requests

/-- Makes a request; tells whether it is a new one on its way. -/
def notify (r : Requests) : Bool × Requests := (!r.sending, { r with sending := true })

/-- The request on its way arrives, if there is room for it. -/
def deliver (r : Requests) : Requests :=
  if r.sending && !r.waiting then { waiting := true, sending := false } else r

/-- Takes the request that lies ready. -/
def take (r : Requests) : Requests := { r with waiting := false }

/-- Nobody takes requests any more. -/
def abandon (r : Requests) : Requests := { r with sending := false }

end Requests

end WorkflowEngine
