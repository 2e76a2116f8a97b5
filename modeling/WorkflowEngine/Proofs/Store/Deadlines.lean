import WorkflowEngine.Proofs.Calendar.Date
import WorkflowEngine.Proofs.Store.InPlace
import WorkflowEngine.Proofs.Store.Growth

/-!
Deadlines that can be computed. Between the years 1970 and 9999 a timeout can be added to every instant
if and only if it is within two bounds that the calendar sets. As long as clocks are in these years and
workflows have no other timeouts, no command of the store panics.
-/

namespace WorkflowEngine

open Fallible Store

/-- The instant lies between the years 1970 and 9999. -/
def Instant.Common (t : Instant) : Prop :=
  Date.dayNumber 1970 1 1 ≤ t.date.day ∧ t.date.day ≤ Date.dayNumber 9999 12 31

/-- A timeout that goes back from 1970 no further than the calendar, and does not leave it from 9999. -/
def Addable (seconds : Int) : Prop :=
  Date.minDay * 86400 ≤ seconds ∧ seconds ≤ (Date.maxDay - Date.dayNumber 9999 12 31) * 86400

instance (seconds : Int) : Decidable (Addable seconds) := inferInstanceAs (Decidable (_ ∧ _))

instance (t : Instant) : Decidable t.Common := inferInstanceAs (Decidable (_ ∧ _))

theorem addable_range {seconds : Int} :
    Addable seconds ↔ -8334601228800 ≤ seconds ∧ seconds ≤ 7956864576000 := by
  have last : Date.dayNumber 9999 12 31 = 2932896 := by decide
  rw [Addable, Date.minDay_eq, Date.maxDay_eq, last]
  omega

theorem common_range {t : Instant} :
    t.Common ↔ 0 ≤ t.nanos ∧ t.nanos < 253402300800000000000 := by
  have first : Date.dayNumber 1970 1 1 = 0 := by decide
  have last : Date.dayNumber 9999 12 31 = 2932896 := by decide
  simp only [Instant.Common, first, last, Instant.date, Instant.nanosPerDay]
  omega

theorem inRange_iff {nanos : Int} : Instant.inRange nanos = true ↔
    -8334601228800000000000 ≤ nanos ∧ nanos < 8210266876800000000000 := by
  rw [Instant.inRange, Bool.and_eq_true, decide_eq_true_eq, decide_eq_true_eq, Date.minDay_eq,
    Date.maxDay_eq, Instant.nanosPerDay]
  omega

theorem deadline_iff {now : Instant} {seconds : Int} : (∃ t, Task.deadline now seconds = .ok t) ↔
    (-Instant.maxSeconds ≤ seconds ∧ seconds ≤ Instant.maxSeconds) ∧
      Instant.inRange (now.nanos + seconds * 1000000000) = true := by
  simp only [Task.deadline, Instant.addSeconds?, Instant.addNanos?]
  split_ifs with few here
  · simp [few, here]
  · simp [here]
  · simp [few]

/-- The bounds are exact: with any other timeout there is a moment that has no deadline. -/
theorem addable_iff {seconds : Int} :
    Addable seconds ↔ ∀ now : Instant, now.Common → ∃ t, Task.deadline now seconds = .ok t := by
  simp only [addable_range, common_range, deadline_iff, inRange_iff, Instant.maxSeconds]
  constructor
  · intro addable now common
    omega
  · -- The bounds are met at the first and at the last moment of these years.
    intro all
    have first := all ⟨0⟩
    have last := all ⟨253402300799999999999⟩
    simp only at first last
    omega

/-- A deadline can be reckoned with either timeout at any time. -/
def Step.Timely (step : Step) : Prop :=
  Addable step.scheduleTimeoutSecs ∧ Addable step.stepTimeoutSecs

def Task.Timely (t : Task) : Prop := Addable t.scheduleTimeoutSecs ∧ Addable t.stepTimeoutSecs

def Workflow.Timely (w : Workflow) : Prop := ∀ step ∈ w.steps, step.Timely

instance (step : Step) : Decidable step.Timely := inferInstanceAs (Decidable (_ ∧ _))

instance (w : Workflow) : Decidable w.Timely := inferInstanceAs (Decidable (∀ step ∈ w.steps, _))

theorem Workflow.validate_plain {w : Workflow} {x : Fault} (invalid : w.validate = .error x) :
    x.isPanic = false := by
  unfold validate at invalid
  split at invalid
  · cases invalid
    rfl
  · cases invalid

/-- A clock that the command reads is a common one, and a workflow that it registers is timely unless
it is refused. -/
def Command.Timely : Command → Prop
  | .registerWorkflow _ w => w.validate.isOk → w.Timely
  | .createPartitions now | .triggerEvents _ now _ _ | .triggerRuns _ now _ _
  | .matchOutcomes _ now _ _ | .fail now _ _ | .assign now _ _ => now.Common
  | .registerTenant _ | .registerWorker _ | .setWorkerActive _ _ | .complete _ _ | .cancel _ _
  | .runStrategy _ _ | .refreshActive _ _ => True

instance : DecidablePred Command.Timely
  | .registerWorkflow _ w => inferInstanceAs (Decidable (_ → w.Timely))
  | .createPartitions now | .triggerEvents _ now _ _ | .triggerRuns _ now _ _
  | .matchOutcomes _ now _ _ | .fail now _ _ | .assign now _ _ => inferInstanceAs (Decidable now.Common)
  | .registerTenant _ | .registerWorker _ | .setWorkerActive _ _ | .complete _ _ | .cancel _ _
  | .runStrategy _ _ | .refreshActive _ _ => inferInstanceAs (Decidable True)

namespace Store

/-- All workflows and tasks are timely. -/
structure Timely (s : Store) : Prop where
  workflows : ∀ w ∈ s.workflows, w.definition.Timely
  tasks : ∀ t ∈ s.tasks, t.Timely

variable {s s' : Store} {t : Task} {tenant : TenantId} {now : Instant}

theorem timely_empty (internalRetries : Int) : ({ internalRetries } : Store).Timely :=
  ⟨List.forall_mem_nil _, List.forall_mem_nil _⟩

namespace Timely

theorem same (timely : s.Timely) (workflows : s'.workflows = s.workflows)
    (tasks : s'.tasks = s.tasks) : s'.Timely :=
  ⟨workflows ▸ timely.workflows, tasks ▸ timely.tasks⟩

theorem enqueue (timely : s.Timely) (t : Task) : (s.enqueue t).Timely :=
  timely.same enqueue_only.terms.workflows enqueue_tasks

theorem addTask (timely : s.Timely) (fit : t.Timely) : (s.addTask t).Timely := by
  refine ⟨timely.workflows, fun u hu => ?_⟩
  rcases List.mem_append.mp hu with old | new
  · exact timely.tasks u old
  · exact List.mem_singleton.mp new ▸ fit

theorem setTask (timely : s.Timely) (fit : t.Timely) : (s.setTask t).Timely := by
  refine ⟨timely.workflows, fun u hu => ?_⟩
  rcases mem_setTask.mp hu with ⟨rfl, -⟩ | ⟨old, -⟩
  · exact fit
  · exact timely.tasks u old

theorem release (timely : s.Timely) (i : TaskId) : (s.release i).Timely := timely.same rfl rfl

theorem insertTask {w : RegisteredWorkflow} {step : Step} {n : NewTask} (timely : s.Timely)
    (common : now.Common) (fit : step.Timely) :
    ∃ t s', s.insertTask w step n now = .ok (t, s') ∧ s'.Timely := by
  obtain ⟨deadline, reckoned⟩ := addable_iff.mp fit.1 now common
  unfold Store.insertTask
  generalize n.start step = initially
  obtain ⟨initial, reason, keys⟩ := initially
  simp only [reckoned]
  split
  · refine ⟨_, _, rfl, Timely.enqueue ?_ _⟩
    exact timely.addTask fit
  · refine ⟨_, _, rfl, ?_⟩
    exact timely.addTask fit

end Timely

end Store

/-! ### Creation -/

namespace Creation

variable {c c' : Creation} {w : RegisteredWorkflow} {step : Step} {n : NewTask} {now : Instant}
  {r : RunRequest} {tenant : TenantId}

/-- What is added is added, and everything is timely. -/
def Succeeds (x : Except Fault Creation) : Prop := ∃ c, x = .ok c ∧ c.store.Timely

section

variable (timely : c.store.Timely) (common : now.Common)
include timely common

theorem addTask_succeeds (fit : step.Timely) : Succeeds (c.addTask w step n now) := by
  obtain ⟨t, s, inserted, timely'⟩ := timely.insertTask common fit (w := w) (n := n)
  rw [addTask, inserted]
  exact ⟨_, rfl, timely'⟩

theorem addSingle_succeeds (fit : w.definition.Timely) : Succeeds (c.addSingle w r now) := by
  unfold addSingle
  split
  · exact ⟨c, rfl, timely⟩
  · rename_i step rest steps
    exact addTask_succeeds timely common (fit step (steps ▸ List.mem_cons_self))

theorem addDag_succeeds (fit : w.definition.Timely) : Succeeds (c.addDag w r now) := by
  have recorded : (record w (dagOf c w r now) c).store.Timely := timely.same rfl rfl
  obtain ⟨c', roots, timely'⟩ : Succeeds (w.definition.rootSteps.foldlM
      (fun c' step => c'.addRoot w r (dagOf c w r now) step) (record w (dagOf c w r now) c)) := by
    refine foldlM_total recorded fun c₁ step root timely₁ => ?_
    exact addTask_succeeds (c := { c₁ with ids := c₁.ids.draw.2 }) timely₁ common
      (fit step (List.mem_filter.mp root).1)
  refine ⟨await w (dagOf c w r now) c', ?_, timely'.same rfl rfl⟩
  exact congrArg (· >>= fun c' => .ok (await w (dagOf c w r now) c')) roots

theorem addRun_succeeds (fit : w.definition.Timely) : Succeeds (c.addRun w r now) := by
  unfold addRun
  split
  · exact ⟨c, rfl, timely⟩
  · split
    · exact addDag_succeeds timely common fit
    · exact addSingle_succeeds timely common fit

theorem addEvent_succeeds (e : UserEvent) : Succeeds (c.addEvent tenant now e) := by
  refine foldlM_total timely fun c₁ w triggered timely₁ => ?_
  exact addRun_succeeds (c := { c₁ with ids := c₁.ids.draw.2 }) timely₁ common
    (timely.workflows w (List.mem_filter.mp triggered).1)

theorem addRequest_succeeds (r : RunRequest) : Succeeds (c.addRequest tenant now r) := by
  unfold addRequest
  split
  · exact ⟨c, rfl, timely⟩
  · rename_i w known
    have fit := timely.workflows w (List.mem_of_find?_eq_some known)
    split
    · exact addRun_succeeds timely common fit
    · split
      · exact ⟨c, rfl, timely⟩
      · obtain ⟨c', ran, timely'⟩ := addRun_succeeds timely common fit (r := r)
        rw [ran]
        exact ⟨_, rfl, timely'.same rfl rfl⟩

theorem addReady_succeeds (x : WaitingStep) : Succeeds (c.addReady tenant now x) := by
  unfold addReady
  simp only
  split
  · exact ⟨c, rfl, timely⟩
  · rename_i dag w step found
    obtain ⟨record, _, found⟩ := Option.bind_eq_some_iff.mp found
    obtain ⟨w', known, found⟩ := Option.bind_eq_some_iff.mp found
    obtain ⟨step', defined, found⟩ := Option.bind_eq_some_iff.mp found
    cases found
    exact addTask_succeeds (c := { c with ids := c.ids.draw.2 }) timely common
      (timely.workflows w (List.mem_of_find?_eq_some known) step (List.mem_of_find?_eq_some defined))

end

end Creation

namespace Store

variable {s s' : Store} {tenant : TenantId} {now : Instant} {ids : IdSource}

/-! ### Attempts -/

theorem Timely.ending {a : Attempt} {state : TaskState} {p : Option ReleasedTask × Store}
    (timely : s.Timely) (ending : Ending s tenant a state p) : p.2.Timely := by
  cases ending with
  | passed => exact timely
  | @ended t found schedule =>
    have fit : (closed t state schedule).Timely := timely.tasks t (accepted?_task found).1
    exact (timely.setTask fit).release _

theorem Timely.endEach {one : Store → Attempt → Option ReleasedTask × Store} {state : TaskState}
    (timely : s.Timely) (endings : ∀ s a, Ending s tenant a state (one s a)) (as : List Attempt) :
    (s.endEach one as).2.Timely := by
  induction as generalizing s with
  | nil => exact timely
  | cons a rest ih => exact ih (timely.ending (endings s a))

section

variable (timely : s.Timely) (common : now.Common)
include timely common

theorem failed_succeeds (f : Failure) : ∃ s', s.failed now tenant f = .ok s' ∧ s'.Timely := by
  unfold failed failOne
  split
  · exact ⟨s, rfl, timely⟩
  · rename_i t found
    have fit : t.Timely := timely.tasks t (accepted?_task found).1
    split
    · obtain ⟨deadline, reckoned⟩ := addable_iff.mp fit.1 now common
      simp only [nextAttempt, reckoned]
      refine ⟨_, rfl, Timely.enqueue (Timely.release (timely.setTask ?_) _) _⟩
      exact fit
    · exact ⟨_, rfl, timely.ending (.ended found t.scheduleTimeoutAt : Ending s tenant _ .failed _)⟩

theorem assigned_succeeds (a : Assignment) : ∃ s', s.assigned now tenant a = .ok s' ∧ s'.Timely := by
  simp only [assigned, assignOne]
  split
  · exact ⟨s, rfl, timely⟩
  · rename_i t found
    have fit : t.Timely := timely.tasks t (accepted?_task (Option.filter_eq_some_iff.mp found).1).1
    obtain ⟨deadline, reckoned⟩ := addable_iff.mp fit.2 now common
    rw [reckoned]
    refine ⟨_, rfl, Timely.same (timely.setTask ?_) rfl rfl⟩
    exact fit

end

/-! ### Commands -/

theorem Timely.registerWorkflow {w : Workflow} (timely : s.Timely) (tenant : TenantId)
    (fit : w.Timely) : (s.registerWorkflow tenant w).2.Timely := by
  refine ⟨fun v registered => ?_, timely.tasks⟩
  rcases Ascending.mem_of_mem_put registered with rfl | old
  · exact fit
  · exact timely.workflows v old

/-- The store carries out the command and stays timely, or it refuses without a panic. -/
def Withstands (s : Store) (c : Command) : Prop :=
  (∃ more s', s.obey c = .ok (more, s') ∧ s'.Timely) ∨ ∃ x, s.obey c = .error x ∧ x.isPanic = false

theorem withstands_creation {c : Command} {create : Except Fault Creation} (now : Instant)
    (obeys : s.obey c = do return ([], (← create).store))
    (missing : ∀ x, s.requirePartition now = .error x → create = .error x)
    (succeeds : s.requirePartition now = .ok () → Creation.Succeeds create) : s.Withstands c := by
  cases required : s.requirePartition now with
  | error x =>
    rw [missing x required] at obeys
    exact Or.inr ⟨x, obeys, requirePartition_plain required⟩
  | ok =>
    obtain ⟨c', created, timely⟩ := succeeds required
    rw [created] at obeys
    exact Or.inl ⟨[], c'.store, obeys, timely⟩

theorem withstands_batch {c : Command} {α : Type} {batch : Except Fault (α × Store)}
    {each : Except Fault Store} (same : (do return (← batch).2) = each)
    (obeys : s.obey c = do return ([], (← batch).2)) (succeeds : ∃ s', each = .ok s' ∧ s'.Timely) :
    s.Withstands c := by
  obtain ⟨s', done, timely⟩ := succeeds
  obtain ⟨⟨a, s₁⟩, worked, left⟩ := bind_ok (same.trans done)
  cases left
  rw [worked] at obeys
  exact Or.inl ⟨[], s₁, obeys, timely⟩

theorem Timely.withstands {c : Command} (timely : s.Timely) (fit : c.Timely) : s.Withstands c := by
  cases c with
  | registerTenant t => exact Or.inl ⟨_, _, rfl, timely.same rfl rfl⟩
  | registerWorker w => exact Or.inl ⟨_, _, rfl, timely.same rfl rfl⟩
  | setWorkerActive id active =>
    simp only [Withstands, obey, setWorkerActive]
    split
    · exact Or.inr ⟨_, rfl, rfl⟩
    · exact Or.inl ⟨_, _, rfl, timely.same rfl rfl⟩
  | registerWorkflow tenant w =>
    simp only [Withstands, obey]
    cases valid : w.validate with
    | error x => exact Or.inr ⟨x, rfl, Workflow.validate_plain valid⟩
    | ok =>
      have accepted : w.validate.isOk = true := by
        rw [valid]
        rfl
      exact Or.inl ⟨_, _, rfl, timely.registerWorkflow tenant (fit accepted)⟩
  | createPartitions now => exact Or.inl ⟨_, _, rfl, timely.same rfl rfl⟩
  | triggerEvents ids now tenant events =>
    refine withstands_creation now rfl (fun x missing => ?_) fun here => ?_
    · rw [triggerEvents, missing]
      rfl
    · rw [triggerEvents, here]
      exact foldlM_total timely fun c e _ timely => Creation.addEvent_succeeds timely fit e
  | triggerRuns ids now tenant requests =>
    refine withstands_creation now rfl (fun x missing => ?_) fun here => ?_
    · rw [triggerRuns, missing]
      rfl
    · rw [triggerRuns, here]
      exact foldlM_total timely fun c r _ timely => Creation.addRequest_succeeds timely fit r
  | matchOutcomes ids now tenant events =>
    refine withstands_creation now rfl (fun x missing => ?_) fun here => ?_
    · rw [matchOutcomes, missing]
      rfl
    · have told : (s.noteAll tenant events).Timely := by
        rw [noteAll_only]
        exact timely.same rfl rfl
      rw [matchOutcomes, here]
      exact foldlM_total (told.same rfl rfl) fun c x _ timely => Creation.addReady_succeeds timely fit x
  | complete tenant attempts =>
    refine Or.inl ⟨_, _, rfl, ?_⟩
    rw [complete_eq]
    exact timely.endEach (fun s a => s.completeOne_ending tenant a) attempts
  | cancel tenant attempts =>
    refine Or.inl ⟨_, _, rfl, ?_⟩
    rw [cancel_eq]
    exact timely.endEach (fun s a => s.cancelOne_ending tenant a) attempts
  | fail now tenant failures =>
    refine withstands_batch (s.fail_each now tenant failures) rfl ?_
    exact foldlM_total timely fun s f _ timely => failed_succeeds timely fit f
  | assign now tenant assignments =>
    refine withstands_batch (s.assign_each now tenant assignments) rfl ?_
    exact foldlM_total timely fun s a _ timely => assigned_succeeds timely fit a
  | runStrategy tenant strategy =>
    exact Or.inl ⟨_, _, rfl, timely.same runStrategy_terms.workflows runStrategy_tasks⟩
  | refreshActive tenant strategy =>
    refine Or.inl ⟨_, _, rfl, timely.same refreshActive_terms.workflows ?_⟩
    rw [refreshActive_eq]

end Store

/-! ### Sequences of commands -/

/-- Gives a store commands in turn, each behind its lock, and tells what came of them. -/
def Guarded.tellAll (g : Guarded Store) : List Command → List (Except Fault (List Attempt)) × Guarded Store
  | [] => ([], g)
  | c :: rest =>
    let (answer, g) := g.write (·.obey c)
    let (answers, g) := g.tellAll rest
    (answer :: answers, g)

theorem Store.Timely.write {s : Store} {c : Command} (timely : s.Timely) (fit : c.Timely) :
    ∃ answer s', (Guarded.sound s).write (·.obey c) = (answer, .sound s') ∧ s'.Timely ∧
      ∀ x, answer = .error x → x.isPanic = false := by
  rcases timely.withstands fit with ⟨more, s', obeyed, timely'⟩ | ⟨x, refused, plain⟩
  · refine ⟨.ok more, s', ?_, timely', nofun⟩
    simp only [Guarded.write, obeyed]
  · refine ⟨.error x, s, ?_, timely, fun y same => ?_⟩
    · cases x with
      | panic => cases plain
      | _ => simp only [Guarded.write, refused, Guarded.afterFault]
    · cases same
      exact plain

theorem Store.Timely.tellAll {s : Store} {cs : List Command} (timely : s.Timely)
    (fit : ∀ c ∈ cs, c.Timely) :
    (∀ x, .error x ∈ ((Guarded.sound s).tellAll cs).1 → x.isPanic = false) ∧
      ∃ s', ((Guarded.sound s).tellAll cs).2 = .sound s' ∧ s'.Timely := by
  induction cs generalizing s with
  | nil => exact ⟨fun _ listed => absurd listed List.not_mem_nil, s, rfl, timely⟩
  | cons c rest ih =>
    obtain ⟨first, others⟩ := List.forall_mem_cons.mp fit
    obtain ⟨answer, s₁, written, timely₁, plain⟩ := timely.write first
    obtain ⟨quiet, kept⟩ := ih timely₁ others
    simp only [Guarded.tellAll, written]
    refine ⟨fun x listed => ?_, kept⟩
    rcases List.mem_cons.mp listed with same | later
    · exact plain x same.symm
    · exact quiet x later

/-- A step that may wait as long as the calendar lasts beyond the year 9999, and seconds more. -/
def patient (more : Int) : Workflow where
  id := ⟨1⟩
  name := "wait"
  eventTriggers := ["go"]
  steps := [{ id := ⟨2⟩, readableId := "wait", queue := "default", retries := 1,
              scheduleTimeoutSecs := 7956864576000 + more }]

/-- At the last moment of 9999 the workflow is run, and its attempt fails and is repeated. -/
def lastMoment (more : Int) : List Command :=
  let now : Instant := ⟨253402300799999999999⟩
  [.registerWorkflow ⟨3⟩ (patient more), .createPartitions now,
    .triggerEvents {} now ⟨3⟩ [⟨⟨5⟩, "go", .null, []⟩], .assign now ⟨3⟩ [⟨⟨1, 0⟩, ⟨4⟩⟩],
    .fail now ⟨3⟩ [⟨⟨1, 0⟩, true, "late"⟩]]

/-- One second more, and the workflow is accepted just as well, but the store is lost when it runs. -/
example : (patient 1).validate = .ok () ∧
    ((Guarded.sound {}).tellAll (lastMoment 1)).2 matches .poisoned := ⟨rfl, rfl⟩

end WorkflowEngine
