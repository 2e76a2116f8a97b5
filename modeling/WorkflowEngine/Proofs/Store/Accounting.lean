import Mathlib.Data.List.Count
import WorkflowEngine.Proofs.Store.Records

/-!
Every step of a run is accounted for: it has a task, or it waits, or it was given up when its parents
had ended because its workflow had been registered anew without it.
-/

namespace WorkflowEngine

open Fallible Store

namespace Agenda

variable {told : Part → Outcome → Prop} {a b : Agenda} {lost more : List WaitingStep}

/-- Its workflow, as it is registered now, has no step of the name. -/
def lacks (a : Agenda) (x : WaitingStep) : Bool :=
  (a.workflow? x).any fun w => (w.definition.step? x.step).isNone

/-- The tasks, the steps that wait and the steps that were given up make up each run. -/
structure Accounts (lost : List WaitingStep) (a : Agenda) : Prop where
  known : ∀ x ∈ lost, x.dagId ≤ a.lastRun
  total : ∀ r ∈ a.runs, a.parts.countP (·.dagId == some r.dag.id) +
    a.waiting.countP (·.dagId == r.dag.id) + lost.countP (·.dagId == r.dag.id) = r.dag.totalTasks

/-- The steps of a new run are its root steps and the others. -/
theorem Accounts.opened {w : RegisteredWorkflow} {r : DagRecord} {roots : List Part}
    (accounts : a.Accounts lost) (sound : a.Sound) (of : r.Of w) (next : r.dag.id = a.lastRun + 1)
    (steps : roots.map (·.step) = w.definition.rootSteps.map (·.readableId))
    (own : ∀ p ∈ roots, p.tenantId = w.tenantId ∧ p.dagId = some r.dag.id) :
    Accounts lost { a.add roots with
      runs := a.runs ++ [r]
      waiting := a.waiting ++ w.definition.childSteps.map (.ofStep r)
      lastRun := r.dag.id } := by
  have own := fun p hp => (own p hp).2
  refine ⟨fun x member => ?_, fun r' member => ?_⟩
  · simp only [next]
    exact Int.le_add_one (accounts.known x member)
  · simp only [add, List.countP_eq_length_filter]
    rcases List.mem_append.mp member with old | new
    · have other : r.dag.id ≠ r'.dag.id := (sound.run_ne_next next old).symm
      rw [parts_opened_other own other, waiting_opened_other other]
      simpa [List.countP_eq_length_filter, partsOf, waitingOf] using accounts.total r' old
    · rw [List.mem_singleton.mp new, sound.parts_opened next own, sound.waiting_opened next]
      have noneLost : lost.filter (·.dagId == r.dag.id) = [] := by
        rw [List.filter_eq_nil_iff]
        exact fun x hx mine => ne_next (accounts.known x hx) next (eq_of_beq mine)
      have rootTasks : roots.length = w.definition.rootSteps.length := by
        simpa using congrArg List.length steps
      have all : w.definition.steps.length =
          w.definition.rootSteps.length + w.definition.childSteps.length :=
        List.length_eq_length_filter_add _
      rw [noneLost, rootTasks, List.length_map, List.length_nil, of.total]
      omega

theorem Advance.accounts (step : Advance told a more b) (sound : a.Sound)
    (accounts : a.Accounts lost) : b.Accounts (lost ++ more) := by
  cases step with
  | alone single =>
    rw [List.append_nil]
    refine ⟨accounts.known, fun r hr => ?_⟩
    simpa [add, single] using accounts.total r hr
  | opened known of next steps own =>
    rw [List.append_nil]
    exact accounts.opened sound of next steps own
  | heard known said of =>
    rw [List.append_nil]
    refine ⟨accounts.known, fun r hr => ?_⟩
    simpa [List.countP_map, Function.comp_def] using accounts.total r hr
  | reordered same =>
    rw [List.append_nil]
    refine ⟨accounts.known, fun r hr => ?_⟩
    rw [← same.countP_eq]
    exact accounts.total r hr
  | started here ready defined tenant run step cancelled =>
    rw [List.append_nil]
    refine ⟨accounts.known, fun r hr => ?_⟩
    have total := accounts.total r hr
    rw [here, List.countP_cons] at total
    simp only [add, List.countP_append, List.countP_singleton, run, Option.some_beq_some]
    omega
  | abandoned here ready undefined =>
    refine ⟨fun x member => ?_, fun r hr => ?_⟩
    · rcases List.mem_append.mp member with old | new
      · exact accounts.known x old
      · rw [List.mem_singleton.mp new]
        exact sound.waiting_le (here ▸ List.mem_cons_self)
    · have total := accounts.total r hr
      rw [here, List.countP_cons] at total
      simp only [List.countP_append, List.countP_singleton]
      omega

theorem Advances.accounts (advances : Advances told a more b) (sound : a.Sound)
    (accounts : a.Accounts lost) : b.Accounts (lost ++ more) := by
  induction advances with
  | none => rwa [List.append_nil]
  | more before step ih =>
    rw [← List.append_assoc]
    exact step.accounts (before.sound sound) ih

end Agenda

namespace Store

variable {s s' : Store} {c : Command} {evicted : List Attempt} {r : DagRecord}
  {lost : List WaitingStep} {internalRetries : Int}

/-- The steps that a command gives up: they have heard of all their parents by it, and have no step in
their workflow any more. -/
def givenUp (s : Store) : Command → List WaitingStep
  | .matchOutcomes _ _ tenant events => (s.readied tenant events).filter s.agenda.lacks
  | _ => []

/-- The steps that were given up by commands in order. -/
def givenUpAlong (s : Store) : List Command → List WaitingStep
  | [] => []
  | c :: rest =>
    s.givenUp c ++ match s.obey c with
      | .ok (_, s') => s'.givenUpAlong rest
      | .error _ => []

/-- Steps are given up for no other reason. -/
theorem givenUp_eq (orderly : s.agenda.Sound) : s.givenUp c = s.abandoned c := by
  cases c with
  | matchOutcomes ids now tenant events =>
    refine List.filter_congr fun x member => ?_
    have advances : Agenda.Advances (s.Conveys tenant events) s.agenda [] _ :=
      noteAll_advances fun _ _ => id
    have noted := advances.sound orderly
    have registered := noted.workflow_isSome (List.mem_filter.mp member).1
    rw [noteAll_only] at registered
    obtain ⟨w, found⟩ := Option.isSome_iff_exists.mp registered
    have found : s.agenda.workflow? x = some w := found
    simp [Agenda.lacks, Agenda.defines, found]
  | _ => rfl

theorem obey_accounts (sound : s.Sound) (orderly : s.agenda.Sound)
    (accounts : s.agenda.Accounts lost) (done : s.obey c = .ok (evicted, s')) :
    s'.agenda.Accounts (lost ++ s.givenUp c) := by
  rcases obey_agenda sound done with ⟨owner, w, rfl, _, agenda⟩ | advances
  · have none : s.givenUp (.registerWorkflow owner w) = [] := rfl
    rw [agenda, none, List.append_nil]
    exact ⟨accounts.known, accounts.total⟩
  · rw [givenUp_eq orderly]
    exact advances.accounts orderly accounts

theorem obeyAll_accounts {cs : List Command} (sound : s.Sound) (orderly : s.agenda.Sound)
    (accounts : s.agenda.Accounts lost) (done : s.obeyAll cs = .ok (evicted, s')) :
    s'.agenda.Accounts (lost ++ s.givenUpAlong cs) := by
  induction cs generalizing s lost evicted with
  | nil =>
    cases done
    rwa [givenUpAlong, List.append_nil]
  | cons c rest ih =>
    obtain ⟨⟨first, s₁⟩, obeyed, done⟩ := bind_ok done
    obtain ⟨⟨later, s₂⟩, followed, done⟩ := bind_ok done
    cases done
    rw [givenUpAlong, obeyed, ← List.append_assoc]
    exact ih ((obey_moves obeyed).sound sound) (obey_agendaSound sound orderly obeyed)
      (obey_accounts sound orderly accounts obeyed) followed

/-- However workflows are registered anew, a step of a run is lost only when it is given up: the tasks of
the run, its steps that wait and its steps that were given up are as many as the run had steps when it was
triggered. -/
theorem run_accounted {cs : List Command}
    (done : ({ internalRetries } : Store).obeyAll cs = .ok (evicted, s)) (hr : r ∈ s.dags) :
    s.tasks.countP (·.dagId == some r.dag.id) + s.waiting.countP (·.dagId == r.dag.id) +
      (givenUpAlong { internalRetries } cs).countP (·.dagId == r.dag.id) = r.dag.totalTasks := by
  have none : Agenda.Accounts [] ({ internalRetries } : Store).agenda :=
    ⟨by simp, by simp [agenda]⟩
  have accounts := obeyAll_accounts (sound_empty internalRetries) (agenda_empty internalRetries) none
    done
  have total := accounts.total r hr
  rwa [List.nil_append, agenda, List.countP_map] at total

/-- An order is paid for and then shipped. -/
def order : Workflow where
  id := ⟨1⟩
  name := "order"
  steps := [
    { id := ⟨2⟩, readableId := "pay", queue := "default" },
    { id := ⟨4⟩, readableId := "ship", queue := "default", parents := ["pay"] }]

/-- When an order has been paid for, shipping has been taken out of the workflow. -/
def shippingDropped : List Command := [
  .registerWorkflow ⟨3⟩ order,
  .createPartitions ⟨0⟩,
  .triggerRuns {} ⟨0⟩ ⟨3⟩ [{ externalId := ⟨7⟩, workflowName := "order", data := .null }],
  .complete ⟨3⟩ [⟨1, 0⟩],
  .registerWorkflow ⟨3⟩ { order with steps := order.steps.take 1 },
  .matchOutcomes ⟨1⟩ ⟨0⟩ ⟨3⟩ [⟨⟨0⟩, Outcome.completed.key (.generated 1), .null⟩]]

def paidOnly : Store :=
  match obeyAll {} shippingDropped with
  | .ok (_, s) => s
  | .error _ => {}

theorem shippingDropped_done : obeyAll {} shippingDropped = .ok ([], paidOnly) := rfl

theorem paidOnly_accounted : (givenUpAlong {} shippingDropped).map (·.step) = ["ship"] ∧
    ∃ r ∈ paidOnly.dags, r.dag.totalTasks = 2 ∧
    paidOnly.tasks.countP (·.dagId == some r.dag.id) + paidOnly.waiting.countP (·.dagId == r.dag.id) +
      (givenUpAlong {} shippingDropped).countP (·.dagId == r.dag.id) = 2 := by
  obtain ⟨r, listed⟩ : ∃ r, paidOnly.dags = [r] := ⟨_, rfl⟩
  have hr : r ∈ paidOnly.dags := listed ▸ List.mem_singleton.mpr rfl
  have total : r.dag.totalTasks = 2 := by
    have totals : paidOnly.dags.map (·.dag.totalTasks) = [2] := rfl
    simpa [listed] using totals
  exact ⟨rfl, r, hr, total, total ▸ run_accounted shippingDropped_done hr⟩

/-- A step that was given up has no task and does not wait. -/
theorem paidOnly_not_complete : Reachable [] paidOnly ∧ ∃ r ∈ paidOnly.dags,
    paidOnly.tasks.countP (·.dagId == some r.dag.id) +
      paidOnly.waiting.countP (·.dagId == r.dag.id) ≠ r.dag.totalTasks :=
  ⟨(Reachable.empty 3).all shippingDropped rfl, _, List.mem_singleton.mpr rfl, by decide⟩

end Store

end WorkflowEngine
