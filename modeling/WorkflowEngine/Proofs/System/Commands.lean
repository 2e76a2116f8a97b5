import Mathlib.Data.Option.Basic
import WorkflowEngine.Effect.Request
import WorkflowEngine.Effect.Sweep
import WorkflowEngine.Proofs.Store.Reachable

/-!
Requests and sweeps as commands. What a request or a pass of a sweep does to the store is to give it one
command, with whose fault it fails; whatever else it comes to is computed behind that.
-/

namespace WorkflowEngine

open Store

variable (s : Store) (ids : IdSource) (now : Instant) (tenant : TenantId)

/-- The command that a request gives to the store. -/
def Request.command : Request → Command
  | complete ps => .complete tenant (ps.map (·.attempt))
  | fail ps => .fail now tenant (ps.map fun p => ⟨p.attempt, p.isAppError, p.errorMessage⟩)
  | cancel ps => .cancel tenant (ps.map (·.attempt))
  | userEvents ps => .triggerEvents ids now tenant (ps.map fun p => ⟨p.eventId, p.key, p.data, p.metadata⟩)
  | trigger ps => .triggerRuns ids now tenant (ps.map fun p =>
      ⟨p.externalId, p.workflowName, p.data, p.metadata, p.parentTaskId, p.childIndex, p.childKey⟩)
  | internalEvents ps => .matchOutcomes ids now tenant (ps.map fun p => ⟨p.timestamp, p.key, p.data⟩)

/-- The failures that a pass of a sweep reports. -/
def Sweep.failures (kind : Sweep) (s : Store) (now : Instant) (tenant : TenantId) (limit : Nat) :
    List Failure :=
  match kind with
  | .timeout => (s.listOverdue tenant limit now).map fun o => ⟨o.task.attempt, false, o.reason⟩
  | .reassign => (s.listStranded tenant limit).map fun t => ⟨t.task, false, workerInactive⟩

theorem failAndAnnounce_command (failures : List Failure) :
    (·.2.1) <$> failAndAnnounce s now tenant failures =
      (·.2) <$> s.obey (.fail now tenant failures) := by
  simp only [failAndAnnounce, obey]
  cases s.fail now tenant failures <;> rfl

theorem Request.serve_command (r : Request) :
    (·.store) <$> serve s ids now tenant r = (·.2) <$> s.obey (r.command ids now tenant) := by
  cases r with
  | complete | cancel => rfl
  | fail ps =>
    simp only [command, ← failAndAnnounce_command, serve, serveFail]
    cases failAndAnnounce s now tenant _ <;> rfl
  | userEvents ps =>
    simp only [serve, serveUserEvents, obey, command]
    cases s.triggerEvents ids now tenant _ <;> rfl
  | trigger ps =>
    simp only [serve, serveTrigger, obey, command]
    cases s.triggerRuns ids now tenant _ <;> rfl
  | internalEvents ps =>
    simp only [serve, serveInternalEvents, obey, command]
    cases s.matchOutcomes ids now tenant _ <;> rfl

theorem sweep_command (kind : Sweep) (limit : Nat) :
    (·.effect.store) <$> sweep kind s ids now tenant limit =
      (·.2) <$> s.obey (.fail now tenant (kind.failures s now tenant limit)) := by
  cases kind with
  | timeout =>
    simp only [sweep, sweepTimeouts, Sweep.failures]
    cases s.listOverdue tenant limit now with
    | nil => rfl
    | cons o rest =>
      rw [← failAndAnnounce_command]
      simp only
      cases failAndAnnounce s now tenant _ <;> rfl
  | reassign =>
    simp only [sweep, sweepStranded, Sweep.failures]
    cases s.listStranded tenant limit with
    | nil => rfl
    | cons o rest =>
      rw [← failAndAnnounce_command]
      simp only
      cases failAndAnnounce s now tenant _ <;> rfl

/-! ### Successes -/

/-- A computation that goes the way of a command has carried it out, if it succeeds. -/
theorem obeyed_of_command {α : Type} {x : Except Fault α} {state : α → Store} {a : α} {c : Command}
    (same : state <$> x = (·.2) <$> s.obey c) (done : x = .ok a) :
    ∃ more, s.obey c = .ok (more, state a) := by
  rw [done] at same
  cases obeyed : s.obey c with
  | error f =>
    rw [obeyed] at same
    cases same
  | ok p =>
    rw [obeyed] at same
    have state : state a = p.2 := Except.ok.inj same
    exact ⟨p.1, by rw [state]⟩

variable {s ids now tenant}

theorem serve_done {r : Request} {x : Effect} (served : Request.serve s ids now tenant r = .ok x) :
    ∃ more, s.obey (r.command ids now tenant) = .ok (more, x.store) :=
  obeyed_of_command s (Request.serve_command s ids now tenant r) served

theorem sweep_done {kind : Sweep} {limit : Nat} {x : SweepEffect}
    (swept : sweep kind s ids now tenant limit = .ok x) :
    ∃ more, s.obey (.fail now tenant (kind.failures s now tenant limit)) =
      .ok (more, x.effect.store) := by
  have same := sweep_command s ids now tenant kind limit
  obtain ⟨more, obeyed⟩ := obeyed_of_command s same swept
  exact ⟨more, obeyed⟩

end WorkflowEngine
