import WorkflowEngine.Proofs.Fallible
import WorkflowEngine.Proofs.Store.Decision
import WorkflowEngine.Proofs.Store.Registration

/-!
The life of one task in the store: it is created, ends, waits again with its next attempt, or leaves
its queue to run. Each of these keeps a sound store sound.
-/

namespace WorkflowEngine.Store

open Fallible

variable {s s' : Store} {t u : Task} {w : RegisteredWorkflow} {step : Step} {n : NewTask}
  {now : Instant}

/-! ### Creation -/

/-- The store with one more task, which has no place yet. -/
def addTask (s : Store) (t : Task) : Store :=
  { s with tasks := s.tasks ++ [t], lastTaskId := t.id }

/-- What is created of a step: the next task, with the strategies of its step if it waits. -/
structure Created (s : Store) (w : RegisteredWorkflow) (step : Step) (n : NewTask) (t : Task) :
    Prop where
  id : t.id = s.lastTaskId + 1
  externalId : t.externalId = n.externalId
  tenant : t.tenantId = w.tenantId
  retryCount : t.retryCount = 0
  internalRetryCount : t.internalRetryCount = 0
  state : t.state = t.initialState.state
  way : (t.state = .queued ∧ t.concurrencyStrategyIds = w.strategiesOf step ∧
      t.concurrencyKeys.length = step.limits.length) ∨
    (t.state.isTerminal = true ∧ t.concurrencyStrategyIds = [] ∧ t.concurrencyKeys = [])

theorem start_keys (free : ∀ p ∈ n.forced, p.1 ≠ .queued) :
    ((n.start step).1 = .queued ∧ (n.start step).2.2.length = step.limits.length) ∨
      ((n.start step).1 ≠ .queued ∧ (n.start step).2.2 = []) := by
  unfold NewTask.start
  split
  · rename_i state reason forced
    exact Or.inr ⟨free _ forced, rfl⟩
  · split
    · exact Or.inr ⟨by simp, rfl⟩
    · split
      · rename_i keys evaluated
        exact Or.inl ⟨rfl, mapM_length evaluated⟩
      · exact Or.inr ⟨by simp, rfl⟩

theorem insertTask_ok (free : ∀ p ∈ n.forced, p.1 ≠ .queued)
    (h : s.insertTask w step n now = .ok (t, s')) :
    Created s w step n t ∧
      ((t.state = .queued ∧ s' = (s.addTask t).enqueue t) ∨
        (t.state.isTerminal = true ∧ s' = s.addTask t)) := by
  have keys := @start_keys step n free
  unfold insertTask at h
  generalize n.start step = start at h keys
  obtain ⟨initial, reason, given⟩ := start
  by_cases waits : initial = .queued
  · subst waits
    obtain ⟨deadline, _, h⟩ := bind_ok h
    cases h
    have length := keys.resolve_right fun other => other.1 rfl
    exact ⟨⟨rfl, rfl, rfl, rfl, rfl, rfl, Or.inl ⟨rfl, rfl, length.2⟩⟩, Or.inl ⟨rfl, rfl⟩⟩
  · have waiting : (initial == .queued) = false := by simpa using waits
    have ended : initial.state.isTerminal = true := by
      cases initial <;> first | exact absurd rfl waits | rfl
    have none := keys.resolve_left fun other => waits other.1
    simp only [waiting, Bool.false_eq_true, if_false] at h
    cases h
    exact ⟨⟨rfl, rfl, rfl, rfl, rfl, rfl, Or.inr ⟨ended, rfl, none.2⟩⟩, Or.inr ⟨ended, rfl⟩⟩

/-- A task is put behind the others. -/
theorem insertTask_tasks (free : ∀ p ∈ n.forced, p.1 ≠ .queued)
    (h : s.insertTask w step n now = .ok (t, s')) :
    s'.tasks = s.tasks ++ [t] ∧ s'.lastTaskId = t.id := by
  obtain ⟨_, ⟨_, rfl⟩ | ⟨_, rfl⟩⟩ := insertTask_ok free h
  · exact ⟨enqueue_tasks, enqueue_lastTaskId⟩
  · exact ⟨rfl, rfl⟩

theorem addTask_only (id : t.id = s.lastTaskId + 1) : OnlyTask t.id s (s.addTask t) := by
  refine ⟨⟨rfl, rfl, rfl, rfl⟩, ?_, fun _ _ => rfl, fun _ _ => Iff.rfl⟩
  intro v other
  simp only [addTask, List.mem_append, List.mem_singleton, or_iff_left_iff_imp]
  rintro rfl
  exact absurd rfl other

theorem insertTask_terms (free : ∀ p ∈ n.forced, p.1 ≠ .queued)
    (h : s.insertTask w step n now = .ok (t, s')) : SameTerms s s' := by
  obtain ⟨created, ⟨_, rfl⟩ | ⟨_, rfl⟩⟩ := insertTask_ok free h
  · exact ((addTask_only created.id).trans enqueue_only).terms
  · exact (addTask_only created.id).terms

theorem Sound.fresh_placeless (sound : s.Sound) : s.Placeless (s.lastTaskId + 1) := by
  have known : ∀ t ∈ s.tasks, t.id ≠ s.lastTaskId + 1 :=
    fun t ht => Int.ne_of_lt (Int.lt_add_one_of_le (sound.latest t ht))
  refine ⟨List.eq_nil_iff_forall_not_mem.mpr ?_, ?_⟩
  · intro x hx
    obtain ⟨hx, mine⟩ := mem_slotsFor.mp hx
    obtain ⟨t, ht, owner⟩ := sound.slotOwner x hx
    exact known t ht (owner.trans mine)
  · intro q hq mine
    obtain ⟨t, ht, owner⟩ := sound.itemOwner q hq
    exact known t ht (owner.trans mine)

theorem Created.wired (created : Created s w step n t) (sound : s.Sound) (known : w ∈ s.workflows)
    (own : step ∈ w.definition.steps) : s.Wired t := by
  obtain ⟨nodup, length, offered⟩ := sound.registry.wired w known step own
  rcases created.way with ⟨_, strategies, keys⟩ | ⟨_, strategies, keys⟩
  · exact ⟨by rw [strategies]; exact nodup, by rw [keys, strategies, length],
      by rw [strategies, created.tenant]; exact offered⟩
  · exact ⟨by rw [strategies]; exact .nil, by rw [keys, strategies]; rfl, by simp [strategies]⟩

/-- No other task has the id of the one that is created. -/
theorem Created.eq_of_id (created : Created s w step n t) (sound : s.Sound)
    (hu : u ∈ s.tasks ++ [t]) (same : u.id = t.id) : u = t := by
  rcases List.mem_append.mp hu with old | new
  · have known := sound.latest u old
    rw [same, created.id] at known
    exact absurd known (Int.not_le.mpr (Int.lt_succ _))
  · exact List.mem_singleton.mp new

/-- A task is created without harm to what is there. -/
theorem insertTask_sound (sound : s.Sound) (known : w ∈ s.workflows)
    (own : step ∈ w.definition.steps) (free : ∀ p ∈ n.forced, p.1 ≠ .queued)
    (h : s.insertTask w step n now = .ok (t, s')) : s'.Sound := by
  obtain ⟨created, result⟩ := insertTask_ok free h
  have only := addTask_only created.id
  have wired : (s.addTask t).Wired t := (created.wired sound known own).of_same only.terms
  have placeless : (s.addTask t).Placeless t.id := by
    have fresh := sound.fresh_placeless
    rw [← created.id] at fresh
    exact ⟨fresh.slots, fresh.items⟩
  have member : t ∈ (s.addTask t).tasks := List.mem_append_right _ (List.mem_singleton.mpr rfl)
  have below : ∀ v ∈ s.tasks, v.id < t.id := by
    intro v hv
    rw [created.id]
    exact Int.lt_add_one_of_le (sound.latest v hv)
  have ordered : (s.addTask t).Ordered :=
    List.pairwise_append.mpr ⟨sound.ordered, List.pairwise_singleton _ _,
      fun v hv u hu => by rw [List.mem_singleton.mp hu]; exact below v hv⟩
  have latest : ∀ v ∈ (s.addTask t).tasks, v.id ≤ t.id := by
    intro v hv
    rcases List.mem_append.mp hv with old | new
    · exact Int.le_of_lt (below v old)
    · rw [List.mem_singleton.mp new]
  rcases result with ⟨state, rfl⟩ | ⟨_, rfl⟩
  · refine sound.of_only (only.trans enqueue_only) ?_ ?_ ⟨t, by simpa using member, rfl⟩ ?_
    · rwa [Ordered, enqueue_tasks]
    · rw [enqueue_tasks, enqueue_lastTaskId]
      exact latest
    · intro v hv same
      rw [enqueue_tasks] at hv
      rw [ordered.eq_of_id hv member same]
      exact ⟨wired.of_same enqueue_only.terms, enqueue_standing placeless wired state⟩
  · refine sound.of_only only ordered latest ⟨t, member, rfl⟩ ?_
    intro v hv same
    rw [ordered.eq_of_id hv member same]
    exact ⟨wired, placeless.standing⟩

/-! ### A task that is there -/

/-- The task is replaced by a later state of itself, and stands in order then. -/
theorem Sound.replace (sound : s.Sound) (ht : t ∈ s.tasks) (keeps : t.Keeps u)
    (only : OnlyTask t.id s s') (tasks : s'.tasks = (s.setTask u).tasks)
    (last : s'.lastTaskId = s.lastTaskId) (standing : s'.Standing u) : s'.Sound := by
  have whole : ∀ v ∈ s'.tasks, v = u ∨ (v ∈ s.tasks ∧ v.id ≠ t.id) := by
    intro v hv
    rw [tasks] at hv
    rcases mem_setTask.mp hv with ⟨rfl, _⟩ | ⟨old, other⟩
    · exact Or.inl rfl
    · exact Or.inr ⟨old, by rwa [keeps.id] at other⟩
  refine sound.of_only only ?_ ?_ ⟨u, ?_, keeps.id⟩ ?_
  · rw [Ordered, tasks]
    exact setTask_ordered sound.ordered
  · intro v hv
    rw [last]
    rcases whole v hv with rfl | ⟨old, _⟩
    · rw [keeps.id]
      exact sound.latest t ht
    · exact sound.latest v old
  · rw [tasks]
    exact mem_setTask.mpr (Or.inl ⟨rfl, t, ht, keeps.id.symm⟩)
  · intro v hv same
    rcases whole v hv with rfl | ⟨_, other⟩
    · exact ⟨((sound.wired t ht).of_keeps keeps).of_same only.terms, standing⟩
    · exact absurd same other

theorem setTask_keeps_only (keeps : t.Keeps u) : OnlyTask t.id s (s.setTask u) :=
  keeps.id ▸ setTask_only

theorem cleared_only (keeps : t.Keeps u) : OnlyTask t.id s ((s.setTask u).release u.id) :=
  (setTask_keeps_only keeps).trans (keeps.id ▸ release_only)

theorem finish_sound (sound : s.Sound) (ht : t ∈ s.tasks) (keeps : t.Keeps u) :
    ((s.setTask u).release u.id).Sound :=
  sound.replace ht keeps (cleared_only keeps) rfl rfl release_placeless.standing

theorem retry_sound (sound : s.Sound) (ht : t ∈ s.tasks) (keeps : t.Keeps u)
    (state : u.state = .queued) : (((s.setTask u).release u.id).enqueue u).Sound := by
  have cleared : OnlyTask t.id s ((s.setTask u).release u.id) := cleared_only keeps
  have wired := ((sound.wired t ht).of_keeps keeps).of_same cleared.terms
  refine sound.replace ht keeps (cleared.trans (keeps.id ▸ enqueue_only)) ?_ ?_ ?_
  · rw [enqueue_tasks]
    rfl
  · rw [enqueue_lastTaskId]
    rfl
  · exact enqueue_standing release_placeless wired state

/-- The store in which a task has left its queue to run. -/
def start (s : Store) (u : Task) : Store :=
  { s.setTask u with queueItems := s.queueItems.filter (·.task.id != u.id) }

theorem start_only (keeps : t.Keeps u) : OnlyTask t.id s (s.start u) := by
  have replaced : OnlyTask t.id s (s.setTask u) := setTask_keeps_only keeps
  refine ⟨⟨rfl, rfl, rfl, rfl⟩, replaced.tasks, replaced.slots, ?_⟩
  intro q other
  simp only [start, List.mem_filter, bne_iff_ne, and_iff_left_iff_imp]
  exact fun _ => keeps.id ▸ other

theorem start_sound (sound : s.Sound) (ht : t ∈ s.tasks) (keeps : t.Keeps u)
    (attempt : u.attempt = t.attempt) (state : u.state = .running)
    (waits : ∃ q ∈ s.queueItems, q.task.id = t.id) : (s.start u).Sound := by
  obtain ⟨q, hq, mine⟩ := waits
  have standing := sound.standing t ht
  have passed := (standing.item q hq mine).2.2
  have slots : (s.start u).slotsFor u.id = s.slotsFor t.id := by rw [keeps.id]; rfl
  refine sound.replace ht keeps (start_only keeps) rfl rfl ⟨?_, ?_, ?_, ?_, ?_, ?_, ?_, ?_⟩
  · rw [slots, keeps.tenant, attempt, keeps.queue]
    exact standing.own
  · rw [slots, keeps.strategies]
    exact standing.strategies
  · rw [slots, keeps.keys]
    exact standing.keys
  · rw [slots, keeps.strategies]
    exact standing.next
  · rw [slots]
    exact standing.filled
  · simp [state, TaskState.isTerminal]
  · intro _
    refine Or.inr ?_
    rw [Passed, slots, keeps.strategies]
    exact passed
  · intro q hq mine
    have gone := (List.mem_filter.mp hq).2
    simp [mine] at gone

end WorkflowEngine.Store
