import Mathlib.Data.List.Nodup
import WorkflowEngine.Proofs.Ascending
import WorkflowEngine.Store.Admission
import WorkflowEngine.Store.Creation
import WorkflowEngine.Store.Lifecycle
import WorkflowEngine.Store.Registry

/-!
What the small writes of a store do to its parts: to the tasks, to the slots of one task and to the
queue. Every later proof about slots goes through `slotsFor`, the slots of one task.
-/

namespace WorkflowEngine.Store

variable {s : Store} {t u : Task} {x : Slot} {i j : TaskId} {σ : StrategyId}

/-- The slots of a task, oldest first. -/
def slotsFor (s : Store) (task : TaskId) : List Slot := s.slots.filter (·.task.id == task)

theorem mem_slotsFor : x ∈ s.slotsFor i ↔ x ∈ s.slots ∧ x.task.id = i := by
  simp [slotsFor]

/-! ### Tasks -/

/-- Tasks are in the order of their ids, each of which is used once. -/
def Ordered (s : Store) : Prop := s.tasks.Pairwise fun a b => a.id < b.id

theorem Ordered.eq_of_id (ordered : s.Ordered) (ht : t ∈ s.tasks) (hu : u ∈ s.tasks)
    (same : t.id = u.id) : t = u := by
  have nodup : (s.tasks.map (·.id)).Nodup := by
    refine List.pairwise_map.mpr (ordered.imp ?_)
    intro a b less
    exact Int.ne_of_lt less
  exact List.inj_on_of_nodup_map nodup ht hu same

theorem mem_of_task? (h : s.task? i = some t) : t ∈ s.tasks ∧ t.id = i :=
  ⟨List.mem_of_find?_eq_some h, by simpa using List.find?_some h⟩

theorem Ordered.task?_eq (ordered : s.Ordered) (ht : t ∈ s.tasks) : s.task? t.id = some t := by
  cases found : s.task? t.id with
  | none =>
    have absent := List.find?_eq_none.mp found t ht
    simp at absent
  | some u =>
    obtain ⟨hu, same⟩ := mem_of_task? found
    rw [ordered.eq_of_id hu ht same]

theorem accepted?_eq_some {tenant : TenantId} {a : Attempt} (h : s.accepted? tenant a = some t) :
    s.task? a.id = some t ∧ t.tenantId = tenant ∧ t.attempt = a ∧ t.state.isTerminal = false := by
  simp only [accepted?, tenantTask?, Option.filter_eq_some_iff, beq_iff_eq, Task.accepts,
    Bool.and_eq_true, Bool.not_eq_true'] at h
  obtain ⟨⟨found, owner⟩, ⟨id, retry⟩, live⟩ := h
  exact ⟨found, owner, by rw [Task.attempt, ← id, ← retry], live⟩

theorem mem_setTask :
    u ∈ (s.setTask t).tasks ↔ (u = t ∧ ∃ v ∈ s.tasks, v.id = t.id) ∨ (u ∈ s.tasks ∧ u.id ≠ t.id) := by
  simp only [setTask, List.mem_map, beq_iff_eq]
  constructor
  · rintro ⟨v, hv, rfl⟩
    by_cases same : v.id = t.id
    · exact Or.inl ⟨if_pos same, v, hv, same⟩
    · rw [if_neg same]
      exact Or.inr ⟨hv, same⟩
  · rintro (⟨rfl, v, hv, same⟩ | ⟨hu, other⟩)
    · exact ⟨v, hv, by simp [same]⟩
    · exact ⟨u, hu, by simp [other]⟩

theorem setTask_ordered (ordered : s.Ordered) : (s.setTask t).Ordered := by
  refine List.pairwise_map.mpr (ordered.imp ?_)
  intro a b less
  have same : ∀ v : Task, (if v.id == t.id then t else v).id = v.id := by
    intro v
    split <;> simp_all
  rw [same, same]
  exact less

/-! ### Slots -/

@[simp] theorem setTask_slotsFor : (s.setTask t).slotsFor i = s.slotsFor i := rfl

@[simp] theorem insertQueueItem_slotsFor {q : QueueItem} :
    (s.insertQueueItem q).slotsFor i = s.slotsFor i := rfl

theorem release_slotsFor : (s.release i).slotsFor j = if i = j then [] else s.slotsFor j := by
  simp only [slotsFor, release, List.filter_filter]
  split
  · subst j
    simp
  · rename_i other
    apply List.filter_congr
    intro x _
    by_cases h : x.task.id = j
    · simp [h, Ne.symm other]
    · simp [h]

theorem fillSlot_slotsFor_other (other : i ≠ j) : (s.fillSlot σ i).slotsFor j = s.slotsFor j := by
  simp only [slotsFor, fillSlot, List.filter_map]
  have kept : ∀ x ∈ s.slots.filter
      ((fun x : Slot => x.task.id == j) ∘ fun x =>
        if x.strategyId == σ && x.task.id == i then { x with filled := true } else x),
      (if x.strategyId == σ && x.task.id == i then { x with filled := true } else x) = x := by
    intro x hx
    have mine : x.task.id = j := by
      have := (List.mem_filter.mp hx).2
      simp only [Function.comp_apply, beq_iff_eq] at this
      split at this <;> exact this
    simp [mine, Ne.symm other]
  rw [List.map_congr_left kept, List.map_id']
  apply List.filter_congr
  intro x _
  simp only [Function.comp_apply]
  split <;> rfl

theorem fillSlot_slotsFor : (s.fillSlot σ i).slotsFor i =
    (s.slotsFor i).map fun x => if x.strategyId == σ then { x with filled := true } else x := by
  simp only [slotsFor, fillSlot, List.filter_map]
  have same : s.slots.filter ((fun x : Slot => x.task.id == i) ∘ fun x =>
      if x.strategyId == σ && x.task.id == i then { x with filled := true } else x) =
      s.slots.filter (·.task.id == i) := by
    apply List.filter_congr
    intro x _
    simp only [Function.comp_apply]
    split <;> rfl
  rw [same]
  apply List.map_congr_left
  intro x hx
  have mine : x.task.id = i := by simpa using (List.mem_filter.mp hx).2
  simp [mine]

/-- The slot that an attempt is given when it comes to a strategy. -/
def newSlot (s : Store) (tenant : TenantId) (strategy : StrategyId) (task : Attempt)
    (key queue : String) (next : List StrategyId) : Slot :=
  { tenantId := tenant, strategyId := strategy, task, key, sortId := s.lastSortId + 1,
    filled := false, queue, next }

theorem insertSlot_slotsFor_other {tenant : TenantId} {a : Attempt} {key queue : String}
    {next : List StrategyId} (other : a.id ≠ j) :
    (s.insertSlot tenant σ a key queue next).slotsFor j = s.slotsFor j := by
  simp only [slotsFor, insertSlot, List.filter_append, List.filter_filter]
  have last : [newSlot s tenant σ a key queue next].filter (·.task.id == j) = [] := by
    simp [newSlot, other]
  change s.slots.filter _ ++ [newSlot s tenant σ a key queue next].filter _ = _
  rw [last, List.append_nil]
  apply List.filter_congr
  intro x _
  by_cases h : x.task.id = j
  · simp [h, Ne.symm other]
  · simp [h]

theorem insertSlot_slotsFor (tenant : TenantId) (a : Attempt) (key queue : String)
    (next : List StrategyId) (absent : ∀ x ∈ s.slotsFor a.id, x.strategyId ≠ σ) :
    (s.insertSlot tenant σ a key queue next).slotsFor a.id =
      s.slotsFor a.id ++ [newSlot s tenant σ a key queue next] := by
  simp only [slotsFor, insertSlot, List.filter_append, List.filter_filter]
  have last : [newSlot s tenant σ a key queue next].filter (·.task.id == a.id) =
      [newSlot s tenant σ a key queue next] := by
    simp [newSlot]
  change s.slots.filter _ ++ [newSlot s tenant σ a key queue next].filter _ = _
  rw [last]
  congr 1
  apply List.filter_congr
  intro x hx
  by_cases h : x.task.id = a.id
  · simp [h, absent x (mem_slotsFor.mpr ⟨hx, h⟩)]
  · simp [h]

/-- The slots of a store after a new one was given. -/
theorem insertSlot_slots_sub {tenant : TenantId} {a : Attempt} {key queue : String}
    {next : List StrategyId} (h : x ∈ (s.insertSlot tenant σ a key queue next).slots) :
    x ∈ s.slots ∨ x = newSlot s tenant σ a key queue next := by
  rcases List.mem_append.mp h with old | new
  · exact Or.inl (List.mem_filter.mp old).1
  · exact Or.inr (List.mem_singleton.mp new)

/-! ### The queue -/

theorem mem_insertQueueItem {q r : QueueItem} (h : q ∈ (s.insertQueueItem r).queueItems) :
    q = r ∨ q ∈ s.queueItems :=
  Ascending.mem_of_mem_put h

theorem mem_insertQueueItem_of_mem {q r : QueueItem} (h : q ∈ s.queueItems)
    (other : q.task.id ≠ r.task.id) : q ∈ (s.insertQueueItem r).queueItems := by
  refine Ascending.mem_put_of_mem h ?_
  simpa only [decide_eq_true_eq] using (Int.lt_or_gt_of_ne other).symm

theorem mem_release_queueItems {q : QueueItem} :
    q ∈ (s.release i).queueItems ↔ q ∈ s.queueItems ∧ q.task.id ≠ i := by
  simp [release]

end WorkflowEngine.Store
