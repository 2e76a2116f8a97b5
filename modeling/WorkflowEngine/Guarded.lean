import WorkflowEngine.Fault

/-!
State behind a lock. A write that panics leaves the state unusable: every later access fails. A write
that fails in any other way changes nothing.
-/

namespace WorkflowEngine

inductive Guarded (σ : Type) where
  | sound (state : σ)
  | poisoned

namespace Guarded

variable {σ : Type}

/-- The state, unless it was poisoned. -/
def get : Guarded σ → Except Fault σ
  | sound s => .ok s
  | poisoned => .error (.ofStorage "lock poisoned")

/-- The state after an access that failed. -/
def afterFault (g : Guarded σ) : Fault → Guarded σ
  | .panic _ => poisoned
  | _ => g

/-- A write, with its result and the state behind it. -/
def write {α : Type} (g : Guarded σ) (op : σ → Except Fault (α × σ)) : Except Fault α × Guarded σ :=
  match g with
  | poisoned => (.error (.ofStorage "lock poisoned"), poisoned)
  | sound s =>
    match op s with
    | .ok (a, s) => (.ok a, sound s)
    | .error f => (.error f, g.afterFault f)

end Guarded

end WorkflowEngine
