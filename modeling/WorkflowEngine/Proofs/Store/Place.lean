import Mathlib.Data.List.Basic
import WorkflowEngine.Proofs.Store.Sound

/-!
Taking a task out of all its places, and giving it its first one. Both leave the rest of the store
as it was.
-/

namespace WorkflowEngine

/-- A later state of the same task, with the same way through its strategies. -/
structure Task.Keeps (t u : Task) : Prop where
  id : u.id = t.id
  tenant : u.tenantId = t.tenantId
  queue : u.queue = t.queue
  strategies : u.concurrencyStrategyIds = t.concurrencyStrategyIds
  keys : u.concurrencyKeys = t.concurrencyKeys

namespace Store

variable {s s' : Store} {t u : Task} {x : Slot} {i : TaskId} {σ : StrategyId}

theorem Wired.of_keeps (wired : s.Wired t) (keeps : t.Keeps u) : s.Wired u := by
  refine ⟨?_, ?_, ?_⟩
  · rw [keeps.strategies]
    exact wired.distinct
  · rw [keeps.keys, keeps.strategies]
    exact wired.keyed
  · rw [keeps.strategies, keeps.tenant]
    exact wired.offered

/-! ### The rest of the store -/

theorem setTask_only : OnlyTask u.id s (s.setTask u) := by
  refine ⟨⟨rfl, rfl, rfl, rfl⟩, ?_, fun _ _ => rfl, fun _ _ => Iff.rfl⟩
  intro v other
  rw [mem_setTask]
  constructor
  · rintro (⟨rfl, _⟩ | ⟨hv, _⟩)
    · exact absurd rfl other
    · exact hv
  · exact fun hv => Or.inr ⟨hv, other⟩

theorem release_only : OnlyTask i s (s.release i) := by
  refine ⟨⟨rfl, rfl, rfl, rfl⟩, fun _ _ => Iff.rfl, ?_, ?_⟩
  · intro j other
    rw [release_slotsFor, if_neg (Ne.symm other)]
  · intro q other
    rw [mem_release_queueItems]
    exact and_iff_left other

theorem insertQueueItem_only (q : QueueItem) : OnlyTask q.task.id s (s.insertQueueItem q) := by
  refine ⟨⟨rfl, rfl, rfl, rfl⟩, fun _ _ => Iff.rfl, fun _ _ => rfl, ?_⟩
  intro r other
  refine ⟨fun h => (mem_insertQueueItem h).resolve_left ?_, fun h => mem_insertQueueItem_of_mem h other⟩
  rintro rfl
  exact other rfl

theorem setStrategyActive_terms {active : Bool} : SameTerms s (s.setStrategyActive σ active) := by
  refine ⟨?_, rfl, rfl, rfl⟩
  rw [setStrategyActive, List.map_map]
  apply List.map_congr_left
  intro y _
  simp only [Function.comp_apply]
  split <;> rfl

theorem insertSlot_only (tenant : TenantId) (a : Attempt) (key queue : String)
    (next : List StrategyId) : OnlyTask a.id s (s.insertSlot tenant σ a key queue next) :=
  ⟨⟨setStrategyActive_terms.strategies, rfl, rfl, rfl⟩, fun _ _ => Iff.rfl,
    fun _ other => insertSlot_slotsFor_other (Ne.symm other), fun _ _ => Iff.rfl⟩

theorem fillSlot_only : OnlyTask i s (s.fillSlot σ i) :=
  ⟨⟨rfl, rfl, rfl, rfl⟩, fun _ _ => Iff.rfl, fun _ other => fillSlot_slotsFor_other (Ne.symm other),
    fun _ _ => Iff.rfl⟩

theorem enqueue_only : OnlyTask t.id s (s.enqueue t) := by
  unfold enqueue
  split
  · exact insertQueueItem_only ⟨t.tenantId, t.attempt, t.queue⟩
  · exact insertSlot_only _ t.attempt _ _ _

@[simp] theorem enqueue_tasks : (s.enqueue t).tasks = s.tasks := by
  unfold enqueue
  split <;> rfl

@[simp] theorem enqueue_lastTaskId : (s.enqueue t).lastTaskId = s.lastTaskId := by
  unfold enqueue
  split <;> rfl

/-! ### No place -/

/-- The task has no slot, and no place in the queue. -/
structure Placeless (s : Store) (i : TaskId) : Prop where
  slots : s.slotsFor i = []
  items : ∀ q ∈ s.queueItems, q.task.id ≠ i

theorem release_placeless : (s.release i).Placeless i := by
  refine ⟨?_, fun q hq => (mem_release_queueItems.mp hq).2⟩
  rw [release_slotsFor, if_pos rfl]

theorem Placeless.standing (placeless : s.Placeless t.id) : s.Standing t := by
  have slots := placeless.slots
  refine ⟨?_, ?_, ?_, ?_, ?_, fun _ => slots, fun _ => Or.inl slots, ?_⟩
  · simp [slots]
  · simp [slots]
  · simp [slots]
  · simp [slots]
  · simp [slots]
  · exact fun q hq mine => absurd mine (placeless.items q hq)

/-! ### The first place -/

theorem insertQueueItem_standing (placeless : s.Placeless t.id) (state : t.state = .queued)
    (unlimited : t.concurrencyStrategyIds = []) :
    (s.insertQueueItem ⟨t.tenantId, t.attempt, t.queue⟩).Standing t := by
  have slots : (s.insertQueueItem ⟨t.tenantId, t.attempt, t.queue⟩).slotsFor t.id = [] :=
    placeless.slots
  refine ⟨?_, ?_, ?_, ?_, ?_, fun _ => slots, fun _ => Or.inl slots, ?_⟩
  · simp [slots]
  · simp [slots]
  · simp [slots]
  · simp [slots]
  · simp [slots]
  · intro q hq mine
    rcases mem_insertQueueItem hq with rfl | old
    · refine ⟨rfl, state, ?_, ?_⟩
      · rw [slots, unlimited, List.map_nil]
      · simp [slots]
    · exact absurd mine (placeless.items q old)

theorem insertSlot_standing {first : StrategyId} {next : List StrategyId}
    (placeless : s.Placeless t.id) (wired : s.Wired t) (state : t.state = .queued)
    (limited : t.concurrencyStrategyIds = first :: next) :
    (s.insertSlot t.tenantId first t.attempt (t.concurrencyKeys.headD "") t.queue next).Standing t := by
  obtain ⟨key, keys, keyed⟩ : ∃ key keys, t.concurrencyKeys = key :: keys := by
    apply List.exists_cons_of_length_pos
    rw [wired.keyed, limited]
    exact Nat.succ_pos _
  have slots : (s.insertSlot t.tenantId first t.attempt (t.concurrencyKeys.headD "") t.queue
      next).slotsFor t.id =
        [newSlot s t.tenantId first t.attempt (t.concurrencyKeys.headD "") t.queue next] := by
    have absent : ∀ x ∈ s.slotsFor t.attempt.id, x.strategyId ≠ first := by
      rw [show t.attempt.id = t.id from rfl, placeless.slots]
      simp
    have appended := insertSlot_slotsFor t.tenantId t.attempt (t.concurrencyKeys.headD "") t.queue
      next absent
    rw [show t.attempt.id = t.id from rfl, placeless.slots] at appended
    exact appended
  refine ⟨?_, ?_, ?_, ?_, ?_, ?_, ?_, ?_⟩
  · rw [slots]
    simp [newSlot]
  · rw [slots]
    simp [newSlot, limited]
  · rw [slots]
    simp [newSlot, keyed]
  · rw [slots]
    intro x hx
    rw [List.mem_singleton.mp hx]
    exact ⟨[], limited⟩
  · rw [slots]
    simp
  · simp [state, TaskState.isTerminal]
  · simp [state]
  · exact fun q hq mine => absurd mine (placeless.items q hq)

/-- A waiting task without a place stands in order once it got its first one. -/
theorem enqueue_standing (placeless : s.Placeless t.id) (wired : s.Wired t)
    (state : t.state = .queued) : (s.enqueue t).Standing t := by
  unfold enqueue
  split
  · exact insertQueueItem_standing placeless state ‹_›
  · exact insertSlot_standing placeless wired state ‹_›

end Store

end WorkflowEngine
