import WorkflowEngine.Calendar.Instant

/-!
The time of a host. It is counted in milliseconds from the start of the host and passes only when
the host lets it; the wall clock goes along with it.
-/

namespace WorkflowEngine

structure Clock where
  /-- What the wall clock showed at the start. -/
  origin : Instant
  /-- Milliseconds since the start. -/
  elapsed : Nat := 0
  deriving DecidableEq, Repr

namespace Clock

/-- What the wall clock shows. -/
def now (c : Clock) : Instant := c.origin.add (.ofMillis c.elapsed)

/-- Sets the wall clock. -/
def set (c : Clock) (now : Instant) : Clock :=
  { c with origin := ⟨now.nanos - (Span.ofMillis c.elapsed).nanos⟩ }

/-- Lets time pass up to a moment. -/
def passTo (c : Clock) (moment : Nat) : Clock := { c with elapsed := max c.elapsed moment }

end Clock

/-- Ticks at once and then periodically. -/
structure Ticker where
  /-- The moment of the next tick. -/
  next : Nat
  period : Nat
  deriving DecidableEq, Repr

namespace Ticker

/-- A ticker that starts now. There is none without a period. -/
def start? (now period : Nat) : Option Ticker := if period = 0 then none else some ⟨now, period⟩

def isDue (t : Ticker) (now : Nat) : Bool := decide (t.next ≤ now)

/-- How many milliseconds a tick may be taken late without delaying the next one. -/
def tolerance : Nat := 5

/-- The ticker behind a tick that is taken now. -/
def advance (t : Ticker) (now : Nat) : Ticker :=
  { t with next := if t.next + tolerance < now then now + t.period else t.next + t.period }

end Ticker

end WorkflowEngine
