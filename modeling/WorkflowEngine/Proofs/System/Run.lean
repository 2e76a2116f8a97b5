import WorkflowEngine.Proofs.Store.Reachable
import WorkflowEngine.Proofs.System.Intake
import WorkflowEngine.Proofs.System.Telling

/-!
The engine at work: it is told what to do, the messages that it publishes for its read model are
delivered, and passes are made over the events that wait there, in whatever order. Along every run the
notices tell what happened to the store and the read model mirrors the notices.
-/

namespace WorkflowEngine

open Fallible

/-- The command is about no attempt that ends and creates no task. -/
def Command.isSilent : Command → Bool
  | .triggerEvents .. | .triggerRuns .. | .matchOutcomes .. => false
  | .complete .. | .fail .. | .cancel .. => false
  | _ => true

/-- The engine, and how many of the messages for the read model were handled there. -/
structure System where
  engine : Engine
  delivered : Nat := 0

namespace System

inductive Action where
  | command (c : Command) (silent : c.isSilent = true)
  | handle (now : Instant) (tenant : TenantId) (kindName : String) (payloads : List ByteArray)
  | sweep (now : Instant) (kind : Sweep) (tenant : TenantId)
  | evaluate (tenant : TenantId) (strategy : Strategy)
  | deliver (now : Instant) (n : Nat)
  | pass (now : Instant) (tenant : TenantId) (table : Table) (share : Nat)

def mail (h : System) : List Message := h.engine.bus.published .readModel

/-- Runs a strategy and announces what came of it. -/
def evaluate (e : Engine) (tenant : TenantId) (strategy : Strategy) : Engine :=
  match e.evaluate tenant strategy with
  | (.error _, e) => e
  | (.ok summary, e) =>
    ((e.orderCancellations tenant summary.cancelled).2.announceQueued tenant summary.queued).2

/-- Delivers a message to the read model. Messages come there in order; one that was handled may come
again at any time. -/
def deliver (h : System) (now : Instant) (n : Nat) : System :=
  if h.delivered < n then h
  else
    match h.mail[n]? with
    | none => h
    | some m =>
      match h.engine.handleReadModel now m.tenantId m.kindName m.payloads with
      | (.ok _, engine) => { engine, delivered := max h.delivered (n + 1) }
      | (.error _, engine) => { h with engine }

def act (h : System) : Action → System
  | .command c _ => { h with engine := (h.engine.write fun s => s.obey c).2 }
  | .handle now tenant kindName payloads =>
    { h with engine := (h.engine.handleTasks now tenant kindName payloads).2 }
  | .sweep now kind tenant => { h with engine := (h.engine.sweepOnce now kind tenant).2 }
  | .evaluate tenant strategy => { h with engine := evaluate h.engine tenant strategy }
  | .deliver now n => h.deliver now n
  | .pass now tenant table share => { h with engine := (h.engine.foldShare now tenant table share).2 }

def run (h : System) (actions : List Action) : System := actions.foldl act h

/-- A system without data, whose read model has tables for some days. -/
def start (settings : Settings) (days : TableDays) : System where
  engine := { Engine.ofSettings settings with
    readModel := .sound
      { ReadModel.ofLimits settings.reconcilePartitions settings.retentionDays with days } }

/-- What is done is done at an instant of the calendar, and attempts are cancelled for no special
reason. -/
def Action.Ordinary : Action → Prop
  | .handle now _ kindName payloads => Instant.inRange now.nanos = true ∧
    (kindName = MessageKind.taskCancelled.name →
      ∀ p ∈ decodePayloads CancelledPayload payloads, p.eventType = .cancelled)
  | .sweep now _ _ => Instant.inRange now.nanos = true
  | _ => True

end System

/-! ### Actions on the store -/

namespace Store

theorem obey_silent {s s' : Store} {c : Command} {evicted : List Attempt} (silent : c.isSilent = true)
    (done : s.obey c = .ok (evicted, s')) :
    (s'.tasks = s.tasks ∧ s'.lastTaskId = s.lastTaskId) ∨
      ∃ now tenant assignments r, s.assign now tenant assignments = .ok (r, s') := by
  cases c with
  | registerTenant | registerWorker | createPartitions =>
    cases done
    exact Or.inl ⟨rfl, rfl⟩
  | setWorkerActive id active =>
    obtain ⟨_, set, done⟩ := bind_ok done
    cases done
    unfold setWorkerActive at set
    split at set
    · cases set
    · cases set
      exact Or.inl ⟨rfl, rfl⟩
  | registerWorkflow tenant w =>
    obtain ⟨_, _, done⟩ := bind_ok done
    cases done
    exact Or.inl ⟨rfl, rfl⟩
  | assign now tenant assignments =>
    obtain ⟨_, assigned, done⟩ := bind_ok done
    cases done
    exact Or.inr ⟨now, tenant, assignments, _, assigned⟩
  | runStrategy tenant strategy =>
    cases done
    exact Or.inl ⟨runStrategy_tasks, runStrategy_lastTaskId⟩
  | refreshActive tenant strategy =>
    cases done
    exact Or.inl (by rw [refreshActive_eq]; exact ⟨rfl, rfl⟩)
  | triggerEvents | triggerRuns | matchOutcomes | complete | fail | cancel => cases silent

end Store

namespace Engine

open Store

variable {e : Engine}

/-- Behind a strategy that ran, nothing is sent but the order to cancel what it turned out. -/
theorem evaluate_posted (e : Engine) {record : QueueName}
    (other : ∀ partition, (QueueName.scheduler partition).text ≠ record.text) (tenant : TenantId)
    (strategy : Strategy) :
    (System.evaluate e tenant strategy).store = (e.runStrategy tenant strategy).2.store ∧
      ∃ placed : List Admission.Placed,
        Posted record (e.runStrategy tenant strategy).2 (System.evaluate e tenant strategy)
          (if placed ≠ [] ∧ QueueName.tasks.text = record.text then
            [Message.cancelled tenant (placed.map cancellation)]
          else []) := by
  unfold System.evaluate evaluate
  cases ran : e.runStrategy tenant strategy with
  | mk result e₁ =>
    cases result with
    | error f => exact ⟨rfl, [], .nothing rfl rfl rfl rfl⟩
    | ok summary =>
      simp only
      have counted : ∀ metrics, Posted record e₁ { e₁ with metrics := metrics } [] := fun _ =>
        .nothing rfl rfl rfl rfl
      obtain ⟨ordered, same⟩ := orderCancellations_posted { e₁ with metrics := _ } record tenant
        summary.cancelled
      obtain ⟨announced, same'⟩ := announceQueued_posted _ other tenant summary.queued
      have sent := ((counted _).trans ordered).trans announced
      rw [List.nil_append, List.append_nil] at sent
      exact ⟨same'.trans same, summary.cancelled, sent⟩

section

variable (sound : ∀ s, e.store = .sound s → s.Sound)
include sound

theorem command_tells {c : Command} (silent : c.isSilent = true) :
    Tells e (e.write fun s => s.obey c).2 := by
  refine write_tells sound fun s a s' sound done => ⟨(obey_moves done).sound sound, ?_⟩
  rcases obey_silent silent done with ⟨tasks, last⟩ | ⟨now, tenant, assignments, r, assigned⟩
  · exact .same tasks last
  · exact assign_told sound assigned

theorem evaluate_tells (tenant : TenantId) (strategy : Strategy) :
    Tells e (System.evaluate e tenant strategy) := by
  have ran : Tells e (e.runStrategy tenant strategy).2 := by
    refine write_tells sound fun s a s' sound done => ?_
    cases done
    exact ⟨runStrategy_sound sound tenant strategy, runStrategy_told s tenant strategy⟩
  obtain ⟨store, placed, posted⟩ := e.evaluate_posted QueueName.scheduler_readModel tenant strategy
  rw [if_neg fun both => QueueName.tasks_readModel both.2] at posted
  exact ran.posted posted store

end

end Engine

end WorkflowEngine
