import WorkflowEngine.Proofs.Store.Parts

/-!
What a store keeps in order at all times. Each task stands with its slots in a prefix of its
strategies, of which all but the last have let it in, and it is in its queue only once all of them
have. `Sound.of_only` reduces the order of a changed store to the one task that changed.
-/

namespace WorkflowEngine

/-- A strategy without the note of whether it has slots. -/
def Strategy.terms (x : Strategy) : Strategy := { x with isActive := true }

namespace Store

variable {s s' : Store} {t : Task} {x : Slot} {i : TaskId} {σ : StrategyId} {tenant : TenantId}

/-- The tenant has a strategy of that id. -/
def Offers (s : Store) (tenant : TenantId) (strategy : StrategyId) : Prop :=
  ∃ x ∈ s.strategies, x.id = strategy ∧ x.tenantId = tenant

/-- Strategies are numbered, let something in, and every step of a workflow has its own. -/
structure Registry (s : Store) : Prop where
  numbered : s.strategies.Pairwise fun a b => a.id < b.id
  latest : ∀ x ∈ s.strategies, x.id ≤ s.lastStrategyId
  positive : ∀ x ∈ s.strategies, 0 < x.maxConcurrency
  wired : ∀ w ∈ s.workflows, ∀ step ∈ w.definition.steps,
    (w.strategiesOf step).Nodup ∧ (w.strategiesOf step).length = step.limits.length ∧
      ∀ id ∈ w.strategiesOf step, s.Offers w.tenantId id

/-- The strategies of a task are different ones of its tenant, and each has a key. -/
structure Wired (s : Store) (t : Task) : Prop where
  distinct : t.concurrencyStrategyIds.Nodup
  keyed : t.concurrencyKeys.length = t.concurrencyStrategyIds.length
  offered : ∀ id ∈ t.concurrencyStrategyIds, s.Offers t.tenantId id

/-- All strategies of a task have let it in. -/
def Passed (s : Store) (t : Task) : Prop :=
  (s.slotsFor t.id).map (·.strategyId) = t.concurrencyStrategyIds ∧
    ∀ x ∈ s.slotsFor t.id, x.filled = true

/-- Where a task stands: in which of its strategies, and whether in its queue. -/
structure Standing (s : Store) (t : Task) : Prop where
  own : ∀ x ∈ s.slotsFor t.id, x.tenantId = t.tenantId ∧ x.task = t.attempt ∧ x.queue = t.queue
  strategies : (s.slotsFor t.id).map (·.strategyId) <+: t.concurrencyStrategyIds
  keys : (s.slotsFor t.id).map (·.key) <+: t.concurrencyKeys
  next : ∀ x ∈ s.slotsFor t.id, ∃ passed, t.concurrencyStrategyIds = passed ++ x.strategyId :: x.next
  filled : ∀ x ∈ (s.slotsFor t.id).dropLast, x.filled = true
  ended : t.state.isTerminal = true → s.slotsFor t.id = []
  running : t.state = .running → s.slotsFor t.id = [] ∨ s.Passed t
  item : ∀ q ∈ s.queueItems, q.task.id = t.id →
    q = ⟨t.tenantId, t.attempt, t.queue⟩ ∧ t.state = .queued ∧ s.Passed t

/-- Everything in the store is in order. -/
structure Sound (s : Store) : Prop where
  registry : s.Registry
  ordered : s.Ordered
  latest : ∀ t ∈ s.tasks, t.id ≤ s.lastTaskId
  wired : ∀ t ∈ s.tasks, s.Wired t
  standing : ∀ t ∈ s.tasks, s.Standing t
  slotOwner : ∀ x ∈ s.slots, ∃ t ∈ s.tasks, t.id = x.task.id
  itemOwner : ∀ q ∈ s.queueItems, ∃ t ∈ s.tasks, t.id = q.task.id

theorem sound_empty (internalRetries : Int) : Sound { internalRetries } := by
  refine ⟨⟨.nil, ?_, ?_, ?_⟩, .nil, ?_, ?_, ?_, ?_, ?_⟩ <;> intro x hx <;> cases hx

/-! ### What does not change -/

/-- The same strategies, but for their activity, the same workflows and the same settings. -/
structure SameTerms (s s' : Store) : Prop where
  strategies : s'.strategies.map Strategy.terms = s.strategies.map Strategy.terms
  workflows : s'.workflows = s.workflows
  last : s'.lastStrategyId = s.lastStrategyId
  retries : s'.internalRetries = s.internalRetries

theorem SameTerms.refl (s : Store) : SameTerms s s := ⟨rfl, rfl, rfl, rfl⟩

theorem SameTerms.trans {s₁ s₂ s₃ : Store} (first : SameTerms s₁ s₂) (second : SameTerms s₂ s₃) :
    SameTerms s₁ s₃ :=
  ⟨second.strategies.trans first.strategies, second.workflows.trans first.workflows,
    second.last.trans first.last, second.retries.trans first.retries⟩

theorem SameTerms.symm (same : SameTerms s s') : SameTerms s' s :=
  ⟨same.strategies.symm, same.workflows.symm, same.last.symm, same.retries.symm⟩

/-- Each strategy is there with the same terms. -/
theorem SameTerms.mem (same : SameTerms s s') {y : Strategy} (hy : y ∈ s'.strategies) :
    ∃ x ∈ s.strategies, x.terms = y.terms := by
  have listed : y.terms ∈ s.strategies.map Strategy.terms := by
    rw [← same.strategies]
    exact List.mem_map_of_mem hy
  obtain ⟨x, hx, equal⟩ := List.mem_map.mp listed
  exact ⟨x, hx, equal⟩

theorem SameTerms.offers (same : SameTerms s s') (offered : s.Offers tenant σ) :
    s'.Offers tenant σ := by
  obtain ⟨x, hx, rfl, rfl⟩ := offered
  obtain ⟨y, hy, equal⟩ := same.symm.mem hx
  simp only [Strategy.terms, Strategy.mk.injEq] at equal
  exact ⟨y, hy, equal.1, equal.2.1⟩

theorem SameTerms.registry (same : SameTerms s s') (registry : s.Registry) : s'.Registry := by
  refine ⟨?_, ?_, ?_, ?_⟩
  · have terms : (s'.strategies.map Strategy.terms).Pairwise
        fun a b : Strategy => a.id < b.id := by
      rw [same.strategies, List.pairwise_map]
      exact registry.numbered
    rwa [List.pairwise_map] at terms
  · intro y hy
    obtain ⟨x, hx, equal⟩ := same.mem hy
    simp only [Strategy.terms, Strategy.mk.injEq] at equal
    rw [same.last, ← equal.1]
    exact registry.latest x hx
  · intro y hy
    obtain ⟨x, hx, equal⟩ := same.mem hy
    simp only [Strategy.terms, Strategy.mk.injEq] at equal
    rw [← equal.2.2.2.2.2.2.1]
    exact registry.positive x hx
  · intro w hw step own
    rw [same.workflows] at hw
    obtain ⟨nodup, size, offered⟩ := registry.wired w hw step own
    exact ⟨nodup, size, fun id member => same.offers (offered id member)⟩

theorem Wired.of_same (wired : s.Wired t) (same : SameTerms s s') : s'.Wired t :=
  ⟨wired.distinct, wired.keyed, fun id member => same.offers (wired.offered id member)⟩

/-- The store differs from another in one task, its slots and its place in the queue. -/
structure OnlyTask (i : TaskId) (s s' : Store) : Prop where
  terms : SameTerms s s'
  tasks : ∀ t, t.id ≠ i → (t ∈ s'.tasks ↔ t ∈ s.tasks)
  slots : ∀ j, j ≠ i → s'.slotsFor j = s.slotsFor j
  items : ∀ q : QueueItem, q.task.id ≠ i → (q ∈ s'.queueItems ↔ q ∈ s.queueItems)

theorem OnlyTask.refl (i : TaskId) (s : Store) : OnlyTask i s s :=
  ⟨.refl s, fun _ _ => Iff.rfl, fun _ _ => rfl, fun _ _ => Iff.rfl⟩

theorem OnlyTask.trans {s₁ s₂ s₃ : Store} (first : OnlyTask i s₁ s₂) (second : OnlyTask i s₂ s₃) :
    OnlyTask i s₁ s₃ :=
  ⟨first.terms.trans second.terms,
    fun t other => (second.tasks t other).trans (first.tasks t other),
    fun j other => (second.slots j other).trans (first.slots j other),
    fun q other => (second.items q other).trans (first.items q other)⟩

/-- A task stands as before if its slots are as before and nothing of it was queued. -/
theorem Standing.of_parts (standing : s.Standing t) (slots : s'.slotsFor t.id = s.slotsFor t.id)
    (items : ∀ q ∈ s'.queueItems, q.task.id = t.id → q ∈ s.queueItems) : s'.Standing t := by
  have passed : s.Passed t → s'.Passed t := by
    intro h
    rwa [Passed, slots]
  refine ⟨?_, ?_, ?_, ?_, ?_, ?_, ?_, ?_⟩
  · rw [slots]; exact standing.own
  · rw [slots]; exact standing.strategies
  · rw [slots]; exact standing.keys
  · rw [slots]; exact standing.next
  · rw [slots]; exact standing.filled
  · rw [slots]; exact standing.ended
  · rw [slots]; exact fun state => (standing.running state).imp id passed
  · intro q hq mine
    obtain ⟨same, state, through⟩ := standing.item q (items q hq mine) mine
    exact ⟨same, state, passed through⟩

/-- If only one task changed, the store stays in order once that task is. -/
theorem Sound.of_only (sound : s.Sound) (only : OnlyTask i s s') (ordered : s'.Ordered)
    (latest : ∀ t ∈ s'.tasks, t.id ≤ s'.lastTaskId) (present : ∃ t ∈ s'.tasks, t.id = i)
    (changed : ∀ t ∈ s'.tasks, t.id = i → s'.Wired t ∧ s'.Standing t) : s'.Sound := by
  refine ⟨only.terms.registry sound.registry, ordered, latest, ?_, ?_, ?_, ?_⟩
  · intro t ht
    by_cases mine : t.id = i
    · exact (changed t ht mine).1
    · exact (sound.wired t ((only.tasks t mine).mp ht)).of_same only.terms
  · intro t ht
    by_cases mine : t.id = i
    · exact (changed t ht mine).2
    · refine (sound.standing t ((only.tasks t mine).mp ht)).of_parts (only.slots _ mine) ?_
      exact fun q hq own => (only.items q (by rw [own]; exact mine)).mp hq
  · intro x hx
    by_cases mine : x.task.id = i
    · rw [mine]
      exact present
    · have held : x ∈ s.slotsFor x.task.id := by
        rw [← only.slots _ mine]
        exact mem_slotsFor.mpr ⟨hx, rfl⟩
      obtain ⟨t, ht, same⟩ := sound.slotOwner x (mem_slotsFor.mp held).1
      exact ⟨t, (only.tasks t (by rw [same]; exact mine)).mpr ht, same⟩
  · intro q hq
    by_cases mine : q.task.id = i
    · rw [mine]
      exact present
    · obtain ⟨t, ht, same⟩ := sound.itemOwner q ((only.items q mine).mp hq)
      exact ⟨t, (only.tasks t (by rw [same]; exact mine)).mpr ht, same⟩

/-- A store with the same tasks, slots and queue is in order if its strategies are. -/
theorem Sound.of_parts (sound : s.Sound) (registry : s'.Registry)
    (offers : ∀ tenant id, s.Offers tenant id → s'.Offers tenant id) (tasks : s'.tasks = s.tasks)
    (slots : s'.slots = s.slots) (items : s'.queueItems = s.queueItems)
    (last : s'.lastTaskId = s.lastTaskId) : s'.Sound := by
  refine ⟨registry, ?_, ?_, ?_, ?_, ?_, ?_⟩
  · rw [Ordered, tasks]; exact sound.ordered
  · rw [tasks, last]; exact sound.latest
  · rw [tasks]
    intro t ht
    have wired := sound.wired t ht
    exact ⟨wired.distinct, wired.keyed, fun id member => offers _ _ (wired.offered id member)⟩
  · rw [tasks]
    intro t ht
    refine (sound.standing t ht).of_parts (by rw [slotsFor, slots, slotsFor]) ?_
    exact fun q hq _ => items ▸ hq
  · rw [slots, tasks]; exact sound.slotOwner
  · rw [items, tasks]; exact sound.itemOwner

/-! ### The slots of a sound store -/

section
variable (sound : s.Sound)
include sound

/-- The slot of a task in a strategy is the only one. -/
theorem Sound.slot_unique {y : Slot} (hx : x ∈ s.slots) (hy : y ∈ s.slots)
    (task : x.task.id = y.task.id) (strategy : x.strategyId = y.strategyId) : x = y := by
  obtain ⟨t, ht, same⟩ := sound.slotOwner x hx
  have nodup := (sound.standing t ht).strategies.sublist.nodup (sound.wired t ht).distinct
  exact List.inj_on_of_nodup_map nodup (mem_slotsFor.mpr ⟨hx, same.symm⟩)
    (mem_slotsFor.mpr ⟨hy, task.symm.trans same.symm⟩) strategy

theorem Sound.slot?_eq (hx : x ∈ s.slots) : s.slot? x.strategyId x.task.id = some x := by
  cases found : s.slot? x.strategyId x.task.id with
  | none =>
    have absent := List.find?_eq_none.mp found x hx
    simp at absent
  | some y =>
    have same : y.strategyId = x.strategyId ∧ y.task.id = x.task.id := by
      simpa using List.find?_some found
    rw [sound.slot_unique (List.mem_of_find?_eq_some found) hx same.2 same.1]

/-- Each slot belongs to the current attempt of a task that has not ended. -/
theorem Sound.slot_current (hx : x ∈ s.slots) :
    ∃ t ∈ s.tasks, t.tenantId = x.tenantId ∧ t.attempt = x.task ∧ t.state.isTerminal = false := by
  obtain ⟨t, ht, same⟩ := sound.slotOwner x hx
  have held := mem_slotsFor.mpr ⟨hx, same.symm⟩
  obtain ⟨tenant, attempt, _⟩ := (sound.standing t ht).own x held
  refine ⟨t, ht, tenant.symm, attempt.symm, ?_⟩
  cases ended : t.state.isTerminal with
  | false => rfl
  | true =>
    rw [(sound.standing t ht).ended ended] at held
    cases held

/-- The tenant of a slot has its strategy. -/
theorem Sound.slot_offered (hx : x ∈ s.slots) : s.Offers x.tenantId x.strategyId := by
  obtain ⟨t, ht, same⟩ := sound.slotOwner x hx
  have held := mem_slotsFor.mpr ⟨hx, same.symm⟩
  have standing := sound.standing t ht
  rw [(standing.own x held).1]
  exact (sound.wired t ht).offered _ (standing.strategies.subset (List.mem_map_of_mem held))

/-- No slot of a sound store is ever stale. -/
theorem Sound.pruneSlots_eq (strategy : StrategyId) : s.pruneSlots strategy = s := by
  have kept : s.slots.filter (fun x => !(x.strategyId == strategy) || s.isCurrent x) = s.slots := by
    apply List.filter_eq_self.mpr
    intro x hx
    obtain ⟨t, ht, _, attempt, live⟩ := sound.slot_current hx
    have id : x.task.id = t.id := by rw [← attempt]; rfl
    have current : s.isCurrent x = true := by
      simp [isCurrent, sound.ordered.task?_eq ht, Task.accepts, ← attempt, Task.attempt, live]
    simp [current]
  rw [pruneSlots, kept]

end

end Store

end WorkflowEngine
