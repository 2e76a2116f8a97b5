import WorkflowEngine.Host.Loops

/-!
How a host goes on. `Host.settle` lets every process have its turns until all of them wait, and
`Host.advance` lets time pass from one awaited moment to the next.
-/

namespace WorkflowEngine.Host

/-- Wakes the consumers that have messages to take. -/
def wakeConsumers (h : Host) : Host :=
  h.wakeAll ((h.consumers.filter fun x =>
    !h.hasEnded x.loop && (h.engine.bus.subscriber? x.subscriber).any (!·.inbox.isEmpty)).map (·.loop))

/-- The next turn, if some process has one. -/
def turn? (h : Host) : Option Host :=
  match h.ready with
  | [] => none
  | p :: rest => some ({ h with ready := rest }.turn p).wakeConsumers

/-- Takes turns, up to a number of them. -/
def settleWithin : Nat → Host → Host
  | 0, h => h
  | turns + 1, h =>
    match h.turn? with
    | none => h
    | some h => settleWithin turns h

/-- The most turns that are taken at one moment. -/
def mostTurns : Nat := 1000000

/-- Lets every process have its turns until all of them wait. -/
def settle (h : Host) : Host := settleWithin mostTurns h.wakeConsumers

/-- The first moment at which a loop wakes up by itself. -/
def nextMoment? (h : Host) : Option Nat := (h.timers.map (·.1)).min?

/-- Lets time pass up to a moment, and wakes up the loops that have waited for it. -/
def passTo (h : Host) (moment : Nat) : Host :=
  let (due, timers) := h.timers.partition fun t => decide (t.1 ≤ moment)
  let loops := due.map Prod.snd
  { h with clock := h.clock.passTo moment, timers }.wakeAll loops

/-- Goes on up to a moment, but from one awaited moment to the next no more than a number of times. -/
def runUntil (moment : Nat) : Nat → Host → Host
  | 0, h => h.passTo moment
  | fuel + 1, h =>
    let h := h.settle
    match h.nextMoment? with
    | some next => if next ≤ moment then runUntil moment fuel (h.passTo next) else h.passTo moment
    | none => h.passTo moment

/-- Lets some milliseconds pass. Awaited moments lie ahead and one millisecond apart, so there are no
more of them than milliseconds. -/
def advance (h : Host) (millis : Nat) : Host :=
  (runUntil (h.elapsed + millis) (millis + 1) h).settle

/-- Goes on until some loops have ended, over no more than a number of awaited moments. -/
def joinWithin (loops : List LoopId) : Nat → Host → Host
  | 0, h => h.settle
  | fuel + 1, h =>
    let h := h.settle
    if loops.all h.hasEnded then h
    else
      match h.nextMoment? with
      | none => h
      | some next => joinWithin loops fuel (h.passTo next)

/-- Waits until loops that were stopped have ended. What they wait for at most is a lock. -/
def joinLoops (h : Host) (loops : List LoopId) : Host :=
  joinWithin loops (h.settings.lockTimeout.millis + 1) h

/-- The loops of managers. -/
def loopsOf (h : Host) (managers : List ManagerId) : List LoopId :=
  (managers.filterMap fun id => h.managers[id]?).flatMap fun m => [m.evaluator, m.refresher]

/-- Waits until managers that were stopped have ended. Nothing has its turn if there are none. -/
def joinManagers (managers : List ManagerId) (h : Host) : Host :=
  if managers.isEmpty then h else h.joinLoops (h.loopsOf managers)

end WorkflowEngine.Host
