import WorkflowEngine.Pool.State

/-!
A pool in virtual time whose operation follows a script: each invocation takes the time and has the
ending that its line says, unless it takes longer than the pool allows. Behind the end of the script
invocations take no time and find nothing more to do.
-/

namespace WorkflowEngine

/-- How an invocation of the script ends. -/
inductive Cue where
  | ending (e : Ending)
  /-- It cancels the pool, and has more to do. -/
  | cancels
  deriving DecidableEq, Repr

/-- One line of the script. -/
structure ScriptLine where
  millis : Nat := 0
  cue : Cue
  deriving DecidableEq, Repr

/-- An invocation on its way. -/
structure Invocation where
  tenant : TenantId
  endsAt : Nat
  cue : Cue
  deriving DecidableEq, Repr

structure Rehearsal where
  timeout : Nat
  script : List ScriptLine
  /-- Milliseconds since the beginning. -/
  now : Nat := 0
  pool : Pool := {}
  /-- Runs that were started and have not begun yet. -/
  starting : List TenantId := []
  active : List Invocation := []
  /-- When each invocation began, and for whom. -/
  calls : List (Nat × TenantId) := []
  deriving DecidableEq, Repr

namespace Rehearsal

def request (r : Rehearsal) (t : TenantId) : Bool × Rehearsal :=
  let (started, pool) := r.pool.request t
  (started, { r with pool, starting := if started then r.starting ++ [t] else r.starting })

def cancel (r : Rehearsal) : Rehearsal := { r with pool := r.pool.cancel }

/-- Invokes the operation for a tenant by the next line of the script. -/
def invoke (r : Rehearsal) (t : TenantId) : Rehearsal :=
  let line := (r.script[r.calls.length]?).getD { cue := .ending .done }
  let invocation : Invocation :=
    if line.millis ≤ r.timeout then ⟨t, r.now + line.millis, line.cue⟩
    else ⟨t, r.now + r.timeout, .ending .timedOut⟩
  { r with calls := r.calls ++ [(r.now, t)], active := r.active ++ [invocation] }

/-- The invocation that ends first, by now. -/
def due? (r : Rehearsal) : Option Invocation :=
  (r.active.filter (·.endsAt ≤ r.now)).foldl (fun best i =>
    match best with
    | none => some i
    | some b => if i.endsAt < b.endsAt then some i else some b) none

/-- Ends an invocation. -/
def conclude (r : Rehearsal) (i : Invocation) : Rehearsal :=
  let r := { r with active := r.active.erase i }
  let (ending, pool) := match i.cue with
    | .ending e => (e, r.pool)
    | .cancels => (.more, r.pool.cancel)
  let (again, pool) := pool.finish i.tenant ending
  let r := { r with pool }
  if again then r.invoke i.tenant else r

/-- Ends every run, for the pool was cancelled. -/
def abandon (r : Rehearsal) : Rehearsal :=
  { r with
    pool := r.active.foldl (fun p i => p.release i.tenant) r.pool
    active := [] }

/-- The next thing that happens at the present moment, if any does. -/
def step? (r : Rehearsal) : Option Rehearsal :=
  match r.starting with
  | t :: rest => some ({ r with starting := rest }.invoke t)
  | [] =>
    match r.due? with
    | some i => some (r.conclude i)
    | none => if r.pool.cancelled && !r.active.isEmpty then some r.abandon else none

/-- Lets everything happen that happens at the present moment. -/
def settleWithin : Nat → Rehearsal → Rehearsal
  | 0, r => r
  | fuel + 1, r =>
    match r.step? with
    | some r => settleWithin fuel r
    | none => r

/-- More than can happen: each line of the script and each run, begun and ended. -/
def bound (r : Rehearsal) : Nat := 2 * (r.script.length + 2 * r.pool.inFlight.length + 2)

def settle (r : Rehearsal) : Rehearsal := r.settleWithin r.bound

/-- The moment at which the next invocation ends. -/
def nextEnd? (r : Rehearsal) : Option Nat := (r.active.map (·.endsAt)).min?

/-- Lets time pass up to a moment, from one ending to the next. -/
def runUntil (target : Nat) : Nat → Rehearsal → Rehearsal
  | 0, r => { r with now := target }
  | fuel + 1, r =>
    let r := r.settle
    match r.nextEnd? with
    | some t => if t ≤ target then runUntil target fuel { r with now := t } else { r with now := target }
    | none => { r with now := target }

def advance (r : Rehearsal) (millis : Nat) : Rehearsal :=
  (runUntil (r.now + millis) r.bound r).settle

/-- Lets time pass until no run is alive. -/
def shutdownWithin : Nat → Rehearsal → Rehearsal
  | 0, r => r
  | fuel + 1, r =>
    let r := r.settle
    match r.nextEnd? with
    | some t => shutdownWithin fuel { r with now := t }
    | none => r

def shutdown (r : Rehearsal) : Rehearsal := r.shutdownWithin r.bound

end Rehearsal

end WorkflowEngine
