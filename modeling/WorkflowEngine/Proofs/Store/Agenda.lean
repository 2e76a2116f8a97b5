import WorkflowEngine.Proofs.Store.Attempts
import WorkflowEngine.Proofs.Store.Catalogue

/-!
The agenda of a store: what its runs are made of. It has the part that each task plays, the runs, and
the steps that wait. What happens to an attempt changes none of these, nor does running a strategy.
-/

namespace WorkflowEngine

open Fallible Store

/-- What a task is from its creation on: whose, and which step of which run. -/
structure Part where
  tenantId : TenantId
  externalId : ExternalId
  dagId : Option DagId
  step : String
  initialState : InitialState

def Task.part (t : Task) : Part where
  tenantId := t.tenantId
  externalId := t.externalId
  dagId := t.dagId
  step := t.stepReadableId
  initialState := t.initialState

/-- The command creates no task and registers no workflow. -/
def Command.isRoutine : Command → Bool
  | .triggerEvents .. | .triggerRuns .. | .matchOutcomes .. | .registerWorkflow .. => false
  | _ => true

structure Agenda where
  workflows : List RegisteredWorkflow
  parts : List Part
  runs : List DagRecord
  waiting : List WaitingStep
  lastRun : DagId

namespace Store

variable {s s' : Store} {t u : Task} {σ : StrategyId} {d : Admission.Decision} {x : Slot}
  {tenant : TenantId} {now : Instant} {more : List Attempt} {c : Command}

def agenda (s : Store) : Agenda where
  workflows := s.workflows
  parts := s.tasks.map Task.part
  runs := s.dags
  waiting := s.waiting
  lastRun := s.lastDagId

/-! ### Attempts -/

theorem setTask_agenda (ordered : s.Ordered) (ht : t ∈ s.tasks) (id : u.id = t.id)
    (part : u.part = t.part) : (s.setTask u).agenda = s.agenda := by
  have same : (s.setTask u).tasks.map Task.part = s.tasks.map Task.part := by
    rw [setTask, List.map_map]
    apply List.map_congr_left
    intro v hv
    by_cases mine : v.id = u.id
    · rw [Function.comp_apply, if_pos (beq_iff_eq.mpr mine), part,
        ordered.eq_of_id hv ht (mine.trans id)]
    · simp [mine]
  rw [agenda, same]
  rfl

@[simp] theorem release_agenda {i : TaskId} : (s.release i).agenda = s.agenda := rfl

@[simp] theorem enqueue_agenda : (s.enqueue t).agenda = s.agenda := by
  unfold enqueue
  split <;> rfl

theorem Ending.agenda {a : Attempt} {state : TaskState} {p : Option ReleasedTask × Store}
    (ending : Ending s tenant a state p) (sound : s.Sound) : p.2.agenda = s.agenda := by
  cases ending with
  | passed => rfl
  | ended found => exact setTask_agenda sound.ordered (accepted?_task found).1 rfl rfl

theorem failOne_agenda {f : Failure} {outcome : FailureOutcome} (sound : s.Sound)
    (h : s.failOne now tenant f = .ok (outcome, s')) : s'.agenda = s.agenda := by
  unfold failOne at h
  split at h
  · cases h
    rfl
  · rename_i t found
    have ht := (accepted?_task found).1
    split at h
    · obtain ⟨next, again, h⟩ := bind_ok h
      obtain ⟨deadline, _, again⟩ := bind_ok again
      cases again
      cases h
      rw [enqueue_agenda, release_agenda]
      exact setTask_agenda sound.ordered ht rfl rfl
    · cases h
      exact setTask_agenda sound.ordered ht rfl rfl

theorem assignOne_agenda {a : Assignment} {r : Option Attempt} (sound : s.Sound)
    (h : s.assignOne now tenant a = .ok (r, s')) : s'.agenda = s.agenda := by
  simp only [assignOne] at h
  split at h
  · cases h
    rfl
  · rename_i t found
    have ht := (accepted?_task (Option.filter_eq_some_iff.mp found).1).1
    obtain ⟨deadline, _, h⟩ := bind_ok h
    cases h
    let running : Task := { t with
      state := .running
      workerId := some a.worker
      scheduleTimeoutAt := none
      timeoutAt := some deadline }
    exact setTask_agenda (u := running) sound.ordered ht rfl rfl

/-! ### Strategies -/

theorem deferTo_agenda {next : StrategyId} : (s.deferTo next x d).agenda = s.agenda := by
  unfold deferTo
  split
  · rfl
  · split
    · rfl
    · split <;> rfl

theorem carryOut_agenda : (s.carryOut σ d).agenda = s.agenda := by
  unfold carryOut
  split
  · rfl
  · split <;> rfl
  · split
    · rfl
    · exact deferTo_agenda

theorem carryOutAll_agenda {ds : List Admission.Decision} :
    (s.carryOutAll σ ds).agenda = s.agenda := by
  induction ds generalizing s with
  | nil => rfl
  | cons d rest ih => exact ih.trans carryOut_agenda

theorem runStrategy_agenda {strategy : Strategy} :
    (s.runStrategy tenant strategy).2.agenda = s.agenda :=
  (carryOutAll_agenda (s := s.pruneSlots _)).trans rfl

theorem refreshActive_agenda {strategy : StrategyId} :
    (s.refreshActive tenant strategy).2.agenda = s.agenda := by
  rw [refreshActive_eq]
  rfl

/-! ### Commands -/

theorem single_routine {batch : Command} (single : c ∈ batch.singles) :
    c.isRoutine = batch.isRoutine := by
  cases batch with
  | complete | cancel | fail | assign =>
    obtain ⟨_, _, rfl⟩ := List.mem_map.mp single
    rfl
  | _ => rw [List.mem_singleton.mp single]

theorem single_agenda {batch : Command} (routine : batch.isRoutine = true) (sound : s.Sound)
    (single : c ∈ batch.singles) (done : s.obey c = .ok (more, s')) : s'.agenda = s.agenda := by
  rw [← single_routine single] at routine
  cases executed_single single done with
  | complete tenant a => exact (completeOne_ending s tenant a).agenda sound
  | cancel tenant a => exact (cancelOne_ending s tenant a).agenda sound
  | fail one => exact failOne_agenda sound one
  | assign one => exact assignOne_agenda sound one
  | runStrategy => exact runStrategy_agenda
  | refreshActive => exact refreshActive_agenda
  | told => rfl
  | triggerEvents | triggerRuns | matchOutcomes | registerWorkflow => cases routine

theorem routine_agenda (routine : c.isRoutine = true) (sound : s.Sound)
    (done : s.obey c = .ok (more, s')) : s'.agenda = s.agenda := by
  refine obey_induction (P := fun s' => s'.agenda = s.agenda) sound rfl ?_ done
  exact fun _ _ _ _ single sound same obeyed => (single_agenda routine sound single obeyed).trans same

end Store

end WorkflowEngine
