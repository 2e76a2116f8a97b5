import WorkflowEngine.Proofs.Store.Decision
import WorkflowEngine.Proofs.System.Report

/-!
The reports of every operation of the store: of attempts that end, of attempts that wait again, and of
tasks that are created.
-/

namespace WorkflowEngine

open Fallible Store

def ReleasedTask.report (tenant : TenantId) (type : EventType) (t : ReleasedTask) : Report :=
  ⟨tenant, t.id, t.retryCount, type⟩

def RetriedTask.report (tenant : TenantId) (t : RetriedTask) : Report :=
  ⟨tenant, t.id, t.retryCount, .queued⟩

namespace Store

variable {s s' : Store} {t u : Task} {tenant : TenantId} {now : Instant} {rs : List Report}

/-! ### Attempts -/

theorem Told.change (ordered : s.Ordered) (ht : t ∈ s.tasks) (ages : t.Ages u)
    (tasks : s'.tasks = (s.setTask u).tasks) (last : s'.lastTaskId = s.lastTaskId)
    (fits : ∀ r ∈ rs, r.Fits u)
    (ended : u.state.isTerminal = true → t.state.isTerminal = true ∨ ∃ r ∈ rs, r.Ends u) :
    Told s s' rs := by
  have here : u ∈ s'.tasks := by
    rw [tasks, mem_setTask]
    exact Or.inl ⟨rfl, t, ht, ages.id.symm⟩
  have origin : ∀ v ∈ s'.tasks, v = u ∨ v ∈ s.tasks := by
    intro v hv
    rw [tasks, mem_setTask] at hv
    exact hv.imp And.left And.left
  refine ⟨?_, ?_, fun r hr => ⟨u, here, fits r hr⟩, ?_, Int.le_of_eq last.symm⟩
  · intro v hv
    by_cases same : v.id = u.id
    · rw [ordered.eq_of_id hv ht (same.trans ages.id)]
      exact ⟨u, here, ages⟩
    · refine ⟨v, ?_, .refl v⟩
      rw [tasks, mem_setTask]
      exact Or.inr ⟨hv, same⟩
  · intro v hv
    rcases origin v hv with rfl | old
    · exact Or.inl ⟨t, ht, ages⟩
    · exact Or.inl ⟨v, old, .refl v⟩
  · intro v hv past
    rcases origin v hv with rfl | old
    · exact (ended past).imp_left fun before => ⟨t, ht, ages, before⟩
    · exact Or.inl ⟨v, old, .refl v, past⟩

/-- An attempt that is given up is reported with what it ended in. -/
theorem finish_told {a : Attempt} {type : EventType} (sound : s.Sound)
    (found : s.accepted? tenant a = some t) (ages : t.Ages u)
    (ended : u.state.isTerminal = true) (status : type.status = u.state.shown) :
    Told s (s.finish u).2 [(s.finish u).1.report tenant type] := by
  obtain ⟨here, owner, -, live⟩ := accepted?_eq_some found
  have ends : ((s.finish u).1.report tenant type).Ends u :=
    ⟨rfl, ages.tenant.trans owner, rfl, status⟩
  refine .change sound.ordered (mem_of_task? here).1 ages rfl rfl ?_ fun _ =>
    Or.inr ⟨_, List.mem_singleton.mpr rfl, ends⟩
  intro r hr
  rw [List.mem_singleton.mp hr]
  exact ends.fits ended

theorem Ending.told {a : Attempt} {state : TaskState} {type : EventType}
    {p : Option ReleasedTask × Store} (ending : Ending s tenant a state p) (sound : s.Sound)
    (terminal : state.isTerminal = true) (status : type.status = state.shown) :
    Told s p.2 (p.1.toList.map (·.report tenant type)) := by
  cases ending with
  | passed => exact .same rfl rfl
  | ended found =>
    have live := (accepted?_eq_some found).2.2.2
    exact finish_told sound found (.of_live live rfl rfl rfl (Int.le_refl _)) terminal status

theorem endEach_told {state : TaskState} {type : EventType}
    {one : Store → Attempt → Option ReleasedTask × Store}
    (endings : ∀ s a, Ending s tenant a state (one s a)) (terminal : state.isTerminal = true)
    (status : type.status = state.shown) (sound : s.Sound) (attempts : List Attempt) :
    Told s (s.endEach one attempts).2 ((s.endEach one attempts).1.map (·.report tenant type)) := by
  induction attempts generalizing s with
  | nil => exact .same rfl rfl
  | cons a rest ih =>
    simp only [endEach, List.map_append]
    exact ((endings s a).told sound terminal status).trans
      (ih (((endings s a).quiet terminal).sound sound))

theorem complete_told (sound : s.Sound) (attempts : List Attempt) :
    Told s (s.complete tenant attempts).2
      ((s.complete tenant attempts).1.map (·.report tenant .finished)) := by
  rw [complete_eq]
  exact endEach_told (fun s a => s.completeOne_ending tenant a) rfl rfl sound attempts

theorem cancel_told (sound : s.Sound) (attempts : List Attempt) :
    Told s (s.cancel tenant attempts).2
      ((s.cancel tenant attempts).1.map (·.report tenant .cancelled)) := by
  rw [cancel_eq]
  exact endEach_told (fun s a => s.cancelOne_ending tenant a) rfl rfl sound attempts

def FailureOutcome.reports (tenant : TenantId) : FailureOutcome → List Report
  | .ignored => []
  | .released t => [t.report tenant .failed]
  | .retried t => [t.report tenant]

def failureReports (tenant : TenantId) (r : FailureResult) : List Report :=
  r.released.map (·.report tenant .failed) ++ r.retried.map (·.report tenant)

theorem mem_failureReports_add {r : FailureResult} {o : FailureOutcome} {x : Report} :
    x ∈ failureReports tenant (FailureResult.add r o) ↔
      x ∈ failureReports tenant r ++ o.reports tenant := by
  cases o <;> simp [FailureResult.add, failureReports, FailureOutcome.reports, or_comm]

/-- The attempt that waits again is the next one. -/
def FollowsOn (t : RetriedTask) : Prop :=
  t.id = t.failedAttempt.id ∧ t.retryCount = t.failedAttempt.retryCount + 1

theorem nextAttempt_ok {isAppError : Bool} (live : t.state.isTerminal = false)
    (h : nextAttempt t isAppError now = .ok u) :
    t.Ages u ∧ u.retryCount = t.retryCount + 1 ∧ u.state = .queued := by
  obtain ⟨deadline, _, h⟩ := bind_ok h
  cases h
  exact ⟨.of_live live rfl rfl rfl (Int.le_add_one (Int.le_refl _)), rfl, rfl⟩

theorem failOne_told {f : Failure} {outcome : FailureOutcome} (sound : s.Sound)
    (h : s.failOne now tenant f = .ok (outcome, s')) :
    Told s s' (outcome.reports tenant) ∧ ∀ t, outcome = .retried t → FollowsOn t := by
  unfold failOne at h
  split at h
  · cases h
    exact ⟨.same rfl rfl, nofun⟩
  · rename_i t found
    obtain ⟨here, owner, attempt, live⟩ := accepted?_eq_some found
    split at h
    · obtain ⟨next, done, h⟩ := bind_ok h
      obtain ⟨ages, counted, waits⟩ := nextAttempt_ok live done
      cases h
      refine ⟨.change sound.ordered (mem_of_task? here).1 ages ?_ ?_ ?_ ?_, ?_⟩
      · rw [enqueue_tasks]
        rfl
      · rw [enqueue_lastTaskId]
        rfl
      · intro r hr
        rw [List.mem_singleton.mp hr]
        exact ⟨ages.id, ages.tenant.trans owner, Or.inl ⟨rfl, Int.le_refl _⟩⟩
      · intro ended
        rw [waits] at ended
        cases ended
      · intro x same
        cases same
        rw [FollowsOn, ← attempt]
        exact ⟨rfl, counted⟩
    · cases h
      exact ⟨finish_told sound found (.of_live live rfl rfl rfl (Int.le_refl _)) rfl rfl, nofun⟩

theorem fail_told {failures : List Failure} {result : FailureResult} (sound : s.Sound)
    (h : s.fail now tenant failures = .ok (result, s')) :
    Told s s' (failureReports tenant result) ∧ ∀ t ∈ result.retried, FollowsOn t := by
  have kept := foldlM_ok (P := fun p : FailureResult × Store => p.2.Sound ∧
    Told s p.2 (failureReports tenant p.1) ∧ ∀ t ∈ p.1.retried, FollowsOn t) h
    ⟨sound, .same rfl rfl, nofun⟩ ?_
  · exact kept.2
  · rintro ⟨r, s₁⟩ f - ⟨r', s₂⟩ ⟨sound₁, told, follows⟩ step
    obtain ⟨⟨outcome, s₃⟩, failed, step⟩ := bind_ok step
    cases step
    obtain ⟨told', next⟩ := failOne_told sound₁ failed
    refine ⟨(failOne_quiet failed).sound sound₁, ?_, ?_⟩
    · exact (told.trans told').add (fun x hx => mem_failureReports_add.mpr hx)
        fun x hx => Or.inl (mem_failureReports_add.mp hx)
    · intro t ht
      cases outcome with
      | ignored => exact follows t ht
      | released x => exact follows t ht
      | retried x =>
        rcases List.mem_append.mp ht with old | new
        · exact follows t old
        · exact next t (congrArg _ (List.mem_singleton.mp new).symm)

theorem assignOne_told {a : Assignment} {r : Option Attempt} (sound : s.Sound)
    (h : s.assignOne now tenant a = .ok (r, s')) : Told s s' [] := by
  simp only [assignOne] at h
  split at h
  · cases h
    exact .same rfl rfl
  · rename_i t found
    obtain ⟨here, -, -, live⟩ := accepted?_eq_some (Option.filter_eq_some_iff.mp found).1
    obtain ⟨deadline, _, h⟩ := bind_ok h
    cases h
    let running : Task := { t with
      state := .running, workerId := some a.worker, scheduleTimeoutAt := none, timeoutAt := some deadline }
    have ages : t.Ages running := .of_live live rfl rfl rfl (Int.le_refl _)
    exact .change sound.ordered (mem_of_task? here).1 ages rfl rfl
      (fun _ told => absurd told List.not_mem_nil) (fun ended => absurd ended Bool.false_ne_true)

theorem assign_told {assignments : List Assignment} {r : List Attempt} (sound : s.Sound)
    (h : s.assign now tenant assignments = .ok (r, s')) : Told s s' [] := by
  induction assignments generalizing s r with
  | nil =>
    cases h
    exact .same rfl rfl
  | cons a rest ih =>
    obtain ⟨⟨first, s₁⟩, assigned, h⟩ := bind_ok h
    obtain ⟨⟨others, s₂⟩, later, h⟩ := bind_ok h
    cases h
    exact (assignOne_told sound assigned).trans (ih ((assignOne_quiet assigned).sound sound) later)

/-! ### Strategies -/

theorem runStrategy_told (s : Store) (tenant : TenantId) (strategy : Strategy) :
    Told s (s.runStrategy tenant strategy).2 [] :=
  .same runStrategy_tasks runStrategy_lastTaskId

/-! ### Creation -/

/-- What is reported of a task that was created in a state that ends it. -/
def birth (t : Task) : Option Report :=
  match t.initialState with
  | .queued => none
  | .failed => some ⟨t.tenantId, t.id, t.retryCount, .failed⟩
  | .cancelled => some ⟨t.tenantId, t.id, t.retryCount, .cancelled⟩
  | .skipped => some ⟨t.tenantId, t.id, t.retryCount, .skipped⟩

theorem birth_ends {r : Report} (state : t.state = t.initialState.state) (h : birth t = some r) :
    r.Ends t ∧ t.state.isTerminal = true := by
  unfold birth at h
  split at h
  · cases h
  all_goals
    rename_i initial
    cases h
    rw [initial] at state
    exact ⟨⟨rfl, rfl, rfl, by rw [state]; rfl⟩, by rw [state]; rfl⟩

theorem birth_isSome (state : t.state = t.initialState.state) (ended : t.state.isTerminal = true) :
    ∃ r, birth t = some r := by
  unfold birth
  split
  · rename_i waits
    rw [state, waits] at ended
    cases ended
  all_goals exact ⟨_, rfl⟩

/-- New tasks are reported if they ended at once. -/
theorem Told.created {new : List Task} (tasks : s'.tasks = s.tasks ++ new)
    (last : s.lastTaskId ≤ s'.lastTaskId)
    (born : ∀ t ∈ new, t.retryCount = 0 ∧ t.state = t.initialState.state) :
    Told s s' (new.filterMap birth) := by
  have here : ∀ t ∈ new, t ∈ s'.tasks := fun t ht => tasks ▸ List.mem_append_right _ ht
  have origin : ∀ u ∈ s'.tasks, u ∈ s.tasks ∨ u ∈ new := by
    intro u hu
    rw [tasks] at hu
    exact List.mem_append.mp hu
  refine ⟨?_, ?_, ?_, ?_, last⟩
  · exact fun u hu => ⟨u, tasks ▸ List.mem_append_left _ hu, .refl u⟩
  · intro u hu
    rcases origin u hu with old | fresh
    · exact Or.inl ⟨u, old, .refl u⟩
    · exact Or.inr (Int.le_of_eq (born u fresh).1.symm)
  · intro r hr
    obtain ⟨t, ht, reported⟩ := List.mem_filterMap.mp hr
    obtain ⟨ends, ended⟩ := birth_ends (born t ht).2 reported
    exact ⟨t, here t ht, ends.fits ended⟩
  · intro u hu ended
    rcases origin u hu with old | fresh
    · exact Or.inl ⟨u, old, .refl u, ended⟩
    · obtain ⟨r, reported⟩ := birth_isSome (born u fresh).2 ended
      exact Or.inr ⟨r, List.mem_filterMap.mpr ⟨u, fresh, reported⟩, (birth_ends (born u fresh).2 reported).1⟩

end Store

end WorkflowEngine
