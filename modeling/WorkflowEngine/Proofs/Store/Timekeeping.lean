import WorkflowEngine.Proofs.Store.Attempts

/-!
Deadlines and workers follow the state of a task. A task that waits has a deadline for its queue and no
worker; a task that runs has a deadline for its attempt, and a worker. A task that has ended has no deadline
left, with one exception: completion and failure take no notice of the deadline for the queue, and so a task
that ends by them while it waits keeps it.
-/

namespace WorkflowEngine

open Fallible Store

/-- The task was completed or failed for good by a request that came while it waited. -/
def Task.EndedWaiting (t : Task) : Prop :=
  (t.state = .completed ∨ t.state = .failed) ∧ t.initialState = .queued ∧ t.workerId = none

/-- The deadlines of a task and its worker are those that go with its state. -/
structure Task.Clocked (t : Task) : Prop where
  schedule : t.scheduleTimeoutAt.isSome ↔ t.state = .queued ∨ t.EndedWaiting
  timeout : t.timeoutAt.isSome ↔ t.state = .running
  waiting : t.state = .queued → t.workerId = none
  running : t.state = .running → t.workerId.isSome
  live : t.state.isTerminal = false → t.initialState = .queued

namespace Task.Clocked

variable {t u : Task} {now : Instant}

/-- A request that leaves the deadline for the queue alone ends the task. -/
theorem closed_as_is {state : TaskState} (clocked : t.Clocked) (live : t.state.isTerminal = false)
    (ends : state = .completed ∨ state = .failed) : (closed t state t.scheduleTimeoutAt).Clocked := by
  have first := clocked.live live
  refine ⟨?_, ?_, ?_, ?_, ?_⟩
  · rw [Task.EndedWaiting]
    simp only [closed, clocked.schedule, first, ends, true_and]
    cases state' : t.state with
    | queued => simp [clocked.waiting state']
    | running =>
      have busy := clocked.running state'
      have apart : state ≠ .queued := by rcases ends with rfl | rfl <;> decide
      have none : t.workerId ≠ none := fun idle => by simp [idle] at busy
      simp [Task.EndedWaiting, state', apart, none]
    | completed | failed | cancelled | skipped =>
      rw [state'] at live
      cases live
  all_goals rcases ends with rfl | rfl <;> simp [closed, TaskState.isTerminal]

theorem cancelled (t : Task) : (closed t .cancelled none).Clocked := by
  constructor <;> simp [closed, EndedWaiting, TaskState.isTerminal]

theorem again {isAppError : Bool} (clocked : t.Clocked) (live : t.state.isTerminal = false)
    (next : nextAttempt t isAppError now = .ok u) : u.Clocked := by
  obtain ⟨deadline, _, next⟩ := bind_ok next
  cases next
  have first := clocked.live live
  constructor <;> simp [first]

theorem started {worker : WorkerId} {deadline : Instant} (clocked : t.Clocked)
    (live : t.state.isTerminal = false) :
    { t with
      state := .running
      workerId := some worker
      scheduleTimeoutAt := none
      timeoutAt := some deadline : Task }.Clocked := by
  have first := clocked.live live
  constructor <;> simp [EndedWaiting, first]

end Task.Clocked

namespace Store

variable {s s' : Store} {t u : Task} {c : Command} {tenant : TenantId} {now : Instant}
  {evicted more : List Attempt}

/-- A task is created with the deadline that goes with its first state. -/
theorem insertTask_clocked {w : RegisteredWorkflow} {step : Step} {n : NewTask}
    (h : s.insertTask w step n now = .ok (t, s')) : t.Clocked := by
  unfold insertTask at h
  generalize n.start step = start at h
  obtain ⟨initial, reason, keys⟩ := start
  cases initial with
  | queued =>
    obtain ⟨deadline, reckoned, h⟩ := bind_ok h
    obtain ⟨moment, _, reckoned⟩ := bind_ok reckoned
    cases reckoned
    cases h
    constructor <;> simp [InitialState.state, Task.EndedWaiting]
  | failed | cancelled | skipped =>
    cases h
    constructor <;> simp [InitialState.state, Task.EndedWaiting, TaskState.isTerminal]

/-- So it is with all tasks. -/
def Clocked (s : Store) : Prop := ∀ t ∈ s.tasks, t.Clocked

theorem Clocked.same (clocked : s.Clocked) (tasks : s'.tasks = s.tasks) : s'.Clocked :=
  fun t ht => clocked t (tasks ▸ ht)

theorem Clocked.change (clocked : s.Clocked) (tasks : s'.tasks = (s.setTask u).tasks)
    (changed : u.Clocked) : s'.Clocked := by
  intro v hv
  rw [tasks, mem_setTask] at hv
  rcases hv with ⟨rfl, _⟩ | ⟨old, _⟩
  · exact changed
  · exact clocked v old

theorem completeOne_clocked (clocked : s.Clocked) (a : Attempt) :
    (s.completeOne tenant a).2.Clocked := by
  unfold completeOne
  split
  · exact clocked
  · rename_i t found
    obtain ⟨ht, live⟩ := accepted?_task found
    exact clocked.change rfl ((clocked t ht).closed_as_is live (Or.inl rfl))

theorem cancelOne_clocked (clocked : s.Clocked) (a : Attempt) : (s.cancelOne tenant a).2.Clocked := by
  unfold cancelOne
  split
  · exact clocked
  · rename_i t _
    exact clocked.change rfl (Task.Clocked.cancelled t)

theorem failOne_clocked {f : Failure} {outcome : FailureOutcome} (clocked : s.Clocked)
    (h : s.failOne now tenant f = .ok (outcome, s')) : s'.Clocked := by
  unfold failOne at h
  split at h
  · cases h
    exact clocked
  · rename_i t found
    obtain ⟨ht, live⟩ := accepted?_task found
    split at h
    · obtain ⟨next, waits, h⟩ := bind_ok h
      cases h
      refine clocked.change ?_ ((clocked t ht).again live waits)
      rw [enqueue_tasks]
      rfl
    · cases h
      exact clocked.change rfl ((clocked t ht).closed_as_is live (Or.inr rfl))

theorem assignOne_clocked {a : Assignment} {r : Option Attempt} (clocked : s.Clocked)
    (h : s.assignOne now tenant a = .ok (r, s')) : s'.Clocked := by
  simp only [assignOne] at h
  split at h
  · cases h
    exact clocked
  · rename_i t found
    obtain ⟨ht, live⟩ := accepted?_task (Option.filter_eq_some_iff.mp found).1
    obtain ⟨deadline, _, h⟩ := bind_ok h
    cases h
    exact clocked.change rfl ((clocked t ht).started live)

theorem Clocked.creates {named : List ExternalId} {k k' : Creation} (clocked : k.store.Clocked)
    (made : Creation.Creates tenant named k k') : k'.store.Clocked := by
  induction made with
  | none => exact clocked
  | other _ alike _ _ ih => exact ih.same alike.tasks
  | @task _ k₂ _ _ _ _ t _ source inserted _ _ _ ih =>
    intro u hu
    rw [(insertTask_tasks source.free inserted).1] at hu
    rcases List.mem_append.mp hu with old | new
    · exact ih u old
    · rw [List.mem_singleton.mp new]
      exact insertTask_clocked inserted

theorem obey_clocked {batch : Command} (single : c ∈ batch.singles) (clocked : s.Clocked)
    (done : s.obey c = .ok (more, s')) : s'.Clocked := by
  cases executed_single single done with
  | complete tenant a => exact completeOne_clocked clocked a
  | cancel tenant a => exact cancelOne_clocked clocked a
  | fail one => exact failOne_clocked clocked one
  | assign one => exact assignOne_clocked clocked one
  | triggerEvents triggered => exact clocked.creates (triggerEvents_creates triggered)
  | triggerRuns triggered => exact clocked.creates (triggerRuns_creates triggered)
  | matchOutcomes matched => exact clocked.creates (matchOutcomes_creates matched)
  | runStrategy => exact clocked.same runStrategy_tasks
  | refreshActive => exact clocked.same (by rw [refreshActive_eq])
  | registerWorkflow | told => exact clocked

theorem Reachable.clocked (reached : Reachable evicted s) : s.Clocked := by
  induction reached with
  | empty => exact List.forall_mem_nil _
  | after before c done ih =>
    exact obey_induction before.sound ih
      (fun _ _ _ _ single _ clocked obeyed => obey_clocked single clocked obeyed) done

/-- In every state that a store can be in the deadlines and the worker of each task are those that go with
its state. Only a task that was completed or failed for good while it waited has kept a deadline that means
nothing any more. -/
theorem reachable_clocked (reached : Reachable evicted s) (ht : t ∈ s.tasks) : t.Clocked :=
  reached.clocked t ht

/-- Three mails are ordered. Before any of them runs, the first is said to be sent and the second to have
failed; the third is then given to a worker. -/
def hasty : List Command := [
  .registerWorkflow ⟨3⟩
    { id := ⟨1⟩, name := "mail", steps := [{ id := ⟨2⟩, readableId := "send", queue := "default" }] },
  .createPartitions ⟨0⟩,
  .triggerRuns {} ⟨0⟩ ⟨3⟩ [mailFor "ann" ⟨7⟩, mailFor "ann" ⟨8⟩, mailFor "ann" ⟨9⟩],
  .complete ⟨3⟩ [⟨1, 0⟩],
  .fail ⟨0⟩ ⟨3⟩ [⟨⟨2, 0⟩, true, "no address"⟩],
  .assign ⟨0⟩ ⟨3⟩ [⟨⟨3, 0⟩, ⟨4⟩⟩]]

def hastyStore : Store :=
  match obeyAll {} hasty with
  | .ok (_, s) => s
  | .error _ => {}

theorem hasty_clocked : Reachable [] hastyStore ∧
    (hastyStore.tasks.map fun t => (t.state, t.scheduleTimeoutAt, t.timeoutAt, t.workerId)) =
      [(.completed, some ⟨300000000000⟩, none, none), (.failed, some ⟨300000000000⟩, none, none),
        (.running, none, some ⟨60000000000⟩, some ⟨4⟩)] ∧
    ∀ t ∈ hastyStore.tasks, t.Clocked := by
  have reached : Reachable [] hastyStore := (Reachable.empty 3).all hasty rfl
  exact ⟨reached, rfl, fun t ht => reachable_clocked reached ht⟩

end Store

end WorkflowEngine
