import WorkflowEngine.Proofs.Store.Capacity

/-!
No task that waits is forgotten. It waits in its queue or in one of its strategies, and a strategy in
which something waits is noted as active, so that it will be run. Only an eviction leaves a task
waiting nowhere.
-/

namespace WorkflowEngine.Store

open Admission (Decision)

variable {s s' : Store} {t u : Task} {x : Slot} {i : TaskId} {σ : StrategyId} {tenant : TenantId}
  {d : Decision} {ds : List Decision} {evicted more : List Attempt}

/-! ### Strategies in use -/

/-- A strategy that has slots is noted as active. -/
def Awake (s : Store) : Prop :=
  ∀ x ∈ s.slots, ∀ y ∈ s.strategies, y.id = x.strategyId → y.isActive = true

theorem Awake.of_parts (awake : s.Awake) (strategies : s'.strategies = s.strategies)
    (slots : ∀ x ∈ s'.slots, ∃ z ∈ s.slots, z.strategyId = x.strategyId) : s'.Awake := by
  intro x hx y hy same
  obtain ⟨z, hz, equal⟩ := slots x hx
  rw [strategies] at hy
  exact awake z hz y hy (same.trans equal.symm)

theorem release_awake (awake : s.Awake) : (s.release i).Awake :=
  awake.of_parts rfl fun x hx => ⟨x, (List.mem_filter.mp hx).1, rfl⟩

theorem fillSlot_awake (awake : s.Awake) : (s.fillSlot σ i).Awake := by
  refine awake.of_parts rfl fun x hx => ?_
  rcases mem_fillSlot hx with old | ⟨z, hz, _, _, rfl⟩
  · exact ⟨x, old, rfl⟩
  · exact ⟨z, hz, rfl⟩

/-- Whoever gives out a slot wakes the strategy. -/
theorem insertSlot_awake (awake : s.Awake) {a : Attempt} {key queue : String}
    {next : List StrategyId} : (s.insertSlot tenant σ a key queue next).Awake := by
  intro x hx y hy same
  obtain ⟨z, hz, rfl⟩ := List.mem_map.mp hy
  by_cases own : z.id = σ
  · simp [own]
  · simp only [beq_iff_eq, own, if_false] at same ⊢
    rcases insertSlot_slots_sub hx with old | new
    · exact awake x old z hz same
    · rw [new] at same
      exact absurd same own

theorem enqueue_awake (awake : s.Awake) : (s.enqueue t).Awake := by
  unfold enqueue
  split
  · exact awake
  · exact insertSlot_awake awake

theorem deferTo_awake (awake : s.Awake) {next : StrategyId} : (s.deferTo next x d).Awake := by
  unfold deferTo
  split
  · exact awake
  · split
    · exact awake
    · split
      · exact awake
      · exact insertSlot_awake awake

theorem carryOut_awake (awake : s.Awake) : (s.carryOut σ d).Awake := by
  have filled : (s.fillSlot σ d.task.id).Awake := fillSlot_awake awake
  unfold carryOut
  split
  · exact release_awake awake
  · split
    · exact awake
    · exact filled
  · split
    · exact awake
    · exact deferTo_awake filled

theorem carryOutAll_awake (awake : s.Awake) : (s.carryOutAll σ ds).Awake := by
  induction ds generalizing s with
  | nil => exact awake
  | cons d rest ih => exact ih (carryOut_awake awake)

theorem refreshActive_awake (sound : s.Sound) (awake : s.Awake) :
    (s.refreshActive tenant σ).2.Awake := by
  simp only [refreshActive]
  split
  · rename_i owned
    obtain ⟨known, found, owner⟩ := Option.any_eq_true _ _ |>.mp owned
    have listed : known ∈ s.strategies := List.mem_of_find?_eq_some found
    have named : known.id = σ := by simpa using List.find?_some found
    intro x hx y hy same
    obtain ⟨z, hz, rfl⟩ := List.mem_map.mp hy
    by_cases own : z.id = σ
    · simp only [own, beq_self_eq_true, if_true] at same ⊢
      -- The slot counts for the refresh, as a slot of the strategy is one of its tenant.
      have here : x ∈ s.slotsOf σ := List.mem_filter.mpr ⟨hx, beq_iff_eq.mpr same.symm⟩
      have mine : x.tenantId = known.tenantId := sound.slot_tenant listed (named ▸ here)
      exact List.any_eq_true.mpr ⟨x, here, by rwa [mine]⟩
    · simp only [beq_iff_eq, own, if_false] at same ⊢
      exact awake x hx z hz same
  · exact awake

theorem registerWorkflow_awake {w : Workflow} (sound : s.Sound) (valid : w.validate = .ok ())
    (awake : s.Awake) : (s.registerWorkflow tenant w).2.Awake := by
  have numbered := workflowStrategies_numbered tenant w s.lastStrategyId
    (Workflow.validate_ok valid).2
  intro x hx y hy same
  rcases List.mem_append.mp hy with old | new
  · exact awake x hx y old same
  · -- A strategy that is new has no slots: its number is above those of all slots.
    obtain ⟨z, hz, named, _⟩ := sound.slot_offered hx
    have known := sound.registry.latest z hz
    have later := (numbered.range y new).1
    rw [same, ← named] at later
    exact absurd known (Int.not_le.mpr later)

theorem Move.awake (move : Move s more s') (sound : s.Sound) (awake : s.Awake) : s'.Awake := by
  cases move with
  | @created _ _ _ _ _ t _ _ free done =>
    have added : (s.addTask t).Awake := awake
    obtain ⟨_, ⟨_, rfl⟩ | ⟨_, rfl⟩⟩ := insertTask_ok free done
    · exact enqueue_awake added
    · exact added
  | @ended _ u =>
    have replaced : (s.setTask u).Awake := awake
    exact release_awake replaced
  | @retried _ u =>
    have replaced : (s.setTask u).Awake := awake
    exact enqueue_awake (release_awake replaced)
  | started => exact awake
  | ran tenant strategy =>
    rw [sound.runStrategy_eq]
    exact carryOutAll_awake awake
  | registered valid => exact registerWorkflow_awake sound valid awake
  | refreshed tenant strategy => exact refreshActive_awake sound awake
  | other alike =>
    refine awake.of_parts alike.strategies fun x hx => ?_
    rw [alike.slots] at hx
    exact ⟨x, hx, rfl⟩

/-! ### The place of a waiting task -/

/-- The task has a place in its queue, or one in a strategy that has not let it in yet. -/
def Holds (s : Store) (t : Task) : Prop :=
  (∃ q ∈ s.queueItems, q.task.id = t.id) ∨ ∃ x ∈ s.slotsFor t.id, x.filled = false

/-- Every waiting task has a place, unless its attempt was evicted. -/
def Kept (evicted : List Attempt) (s : Store) : Prop :=
  ∀ t ∈ s.tasks, t.state = .queued → t.attempt ∈ evicted ∨ s.Holds t

theorem Kept.mono (kept : Kept evicted s) : Kept (evicted ++ more) s :=
  fun t ht queued => (kept t ht queued).imp_left (List.mem_append_left more)

theorem Kept.of_only (kept : Kept evicted s) (only : OnlyTask i s s')
    (changed : ∀ t ∈ s'.tasks, t.id = i → t.state = .queued → t.attempt ∈ evicted ∨ s'.Holds t) :
    Kept evicted s' := by
  intro t ht queued
  by_cases mine : t.id = i
  · exact changed t ht mine queued
  · refine (kept t ((only.tasks t mine).mp ht) queued).imp_right (Or.imp ?_ ?_)
    · rintro ⟨q, hq, own⟩
      exact ⟨q, (only.items q (by rwa [own])).mpr hq, own⟩
    · rw [only.slots t.id mine]
      exact id

theorem Kept.of_parts (kept : Kept evicted s) (tasks : s'.tasks = s.tasks)
    (slots : s'.slots = s.slots) (items : s'.queueItems = s.queueItems) : Kept evicted s' := by
  intro t ht queued
  rw [tasks] at ht
  rw [Holds, slotsFor, slots, items]
  exact kept t ht queued

theorem insertSlot_holds {key queue : String} {next : List StrategyId} :
    (s.insertSlot tenant σ t.attempt key queue next).Holds t :=
  Or.inr ⟨newSlot s tenant σ t.attempt key queue next,
    mem_slotsFor.mpr ⟨List.mem_append_right _ (List.mem_singleton.mpr rfl), rfl⟩, rfl⟩

theorem insertQueueItem_holds {queue : String} :
    (s.insertQueueItem ⟨tenant, t.attempt, queue⟩).Holds t :=
  Or.inl ⟨⟨tenant, t.attempt, queue⟩, Ascending.mem_put_self, rfl⟩

theorem enqueue_holds : (s.enqueue t).Holds t := by
  unfold enqueue
  split
  · exact insertQueueItem_holds
  · exact insertSlot_holds

/-- A decision moves a waiting task on to its next place, or evicts it. -/
theorem carryOut_kept (sound : s.Sound) (backs : s.Backs σ d)
    (gone : d.verdict = .cancelled → d.task ∈ evicted) (kept : Kept evicted s) :
    Kept evicted (s.carryOut σ d) := by
  obtain ⟨x, hx, rfl, verdict⟩ := backs
  have about : x.task = d.task := by
    rcases verdict with rfl | ⟨_, rfl⟩ <;> rfl
  refine kept.of_only carryOut_only ?_
  intro t ht mine _
  rw [carryOut_tasks] at ht
  have held : x ∈ s.slotsFor t.id := mem_slotsFor.mpr ⟨hx, by rw [about, mine]⟩
  rcases verdict with rfl | ⟨waiting, rfl⟩
  · -- The slot was of the current attempt, which is the one that is cancelled.
    refine Or.inl ?_
    rw [← ((sound.standing t ht).own x held).2.1]
    exact gone rfl
  · -- It was let in, and goes to its queue or to the strategy that comes next.
    obtain ⟨before, waits⟩ := (sound.standing t ht).waits (sound.wired t ht) held waiting
    refine Or.inr ?_
    obtain ⟨_, carried⟩ | ⟨_, _, _, _, _, carried⟩ := sound.letIn_eq ht held waits
    · rw [carried]
      exact insertQueueItem_holds
    · rw [carried]
      exact insertSlot_holds

theorem carryOutAll_kept (sound : s.Sound) (backs : ∀ d ∈ ds, s.Backs σ d)
    (once : (ds.map (·.task.id)).Nodup)
    (gone : ∀ d ∈ ds, d.verdict = .cancelled → d.task ∈ evicted) (kept : Kept evicted s) :
    Kept evicted (s.carryOutAll σ ds) := by
  induction ds generalizing s with
  | nil => exact kept
  | cons d rest ih =>
    obtain ⟨fresh, once⟩ := List.nodup_cons.mp once
    have first := backs d List.mem_cons_self
    -- The decisions to come are about other tasks, so what backs them is still there.
    refine ih (carryOut_sound sound first) ?_ once
      (fun d' hd' => gone d' (List.mem_cons_of_mem _ hd'))
      (carryOut_kept sound first (gone d List.mem_cons_self) kept)
    intro d' hd'
    refine (backs d' (List.mem_cons_of_mem _ hd')).of_only carryOut_only ?_
    exact fun same => fresh (List.mem_map.mpr ⟨d', hd', same⟩)

theorem runStrategy_kept (sound : s.Sound) (kept : Kept evicted s) (tenant : TenantId)
    (strategy : Strategy) :
    Kept (evicted ++ (s.runStrategy tenant strategy).1.cancelled.map (·.task))
      (s.runStrategy tenant strategy).2 := by
  rw [sound.runStrategy_eq]
  refine carryOutAll_kept sound (sound.decisions_backed _ _) (sound.decisions_nodup _ _) ?_ kept.mono
  intro d hd ends
  exact List.mem_append_right _ (Admission.Summary.mem_cancelled.mpr ⟨d, hd, ends, rfl⟩)

theorem Kept.replace (kept : Kept evicted s) (keeps : t.Keeps u) (only : OnlyTask t.id s s')
    (tasks : s'.tasks = (s.setTask u).tasks) (holds : u.state = .queued → s'.Holds u) :
    Kept evicted s' := by
  refine kept.of_only only ?_
  intro v hv mine queued
  rw [tasks] at hv
  rcases mem_setTask.mp hv with ⟨rfl, _⟩ | ⟨_, other⟩
  · exact Or.inr (holds queued)
  · exact absurd (mine.trans keeps.id.symm) other

theorem insertTask_kept {w : RegisteredWorkflow} {step : Step} {n : NewTask} {now : Instant}
    (sound : s.Sound) (kept : Kept evicted s) (free : ∀ p ∈ n.forced, p.1 ≠ .queued)
    (h : s.insertTask w step n now = .ok (t, s')) : Kept evicted s' := by
  obtain ⟨created, result⟩ := insertTask_ok free h
  rcases result with ⟨_, rfl⟩ | ⟨ended, rfl⟩
  · refine kept.of_only ((addTask_only created.id).trans enqueue_only) ?_
    intro v hv mine _
    rw [enqueue_tasks] at hv
    rw [created.eq_of_id sound hv mine]
    exact Or.inr enqueue_holds
  · refine kept.of_only (addTask_only created.id) ?_
    intro v hv mine queued
    rw [← created.eq_of_id sound hv mine, queued] at ended
    cases ended

theorem Move.kept (move : Move s more s') (sound : s.Sound) (kept : Kept evicted s) :
    Kept (evicted ++ more) s' := by
  cases move with
  | created known own free done => exact (insertTask_kept sound kept free done).mono
  | @ended t u ht live keeps ends =>
    refine (kept.replace keeps (cleared_only keeps) rfl ?_).mono
    intro queued
    rw [queued] at ends
    cases ends
  | @retried t u ht live keeps state =>
    have cleared : OnlyTask t.id s ((s.setTask u).release u.id) := cleared_only keeps
    have only := cleared.trans (keeps.id ▸ enqueue_only)
    exact (kept.replace keeps only (by rw [enqueue_tasks]; rfl) fun _ => enqueue_holds).mono
  | @started t u ht keeps attempt state waits =>
    refine (kept.replace keeps (start_only keeps) rfl ?_).mono
    intro queued
    rw [queued] at state
    cases state
  | ran tenant strategy => exact runStrategy_kept sound kept tenant strategy
  | registered valid => exact (kept.of_parts rfl rfl rfl).mono
  | refreshed tenant strategy =>
    rw [refreshActive_eq]
    exact (kept.of_parts rfl rfl rfl).mono
  | other alike => exact (kept.of_parts alike.tasks alike.slots alike.items).mono

theorem Moves.kept {s₀ : Store} (moves : Moves s₀ evicted s) (sound : s₀.Sound)
    (awake : s₀.Awake) (kept : Kept [] s₀) : s.Awake ∧ Kept evicted s := by
  induction moves with
  | none => exact ⟨awake, kept⟩
  | more before move ih =>
    obtain ⟨awake, kept⟩ := ih
    have sound := before.sound sound
    exact ⟨move.awake sound awake, move.kept sound kept⟩

/-! ### Exactly one place -/

/-- The slots in which an attempt waits to be let in. -/
def pendingFor (s : Store) (a : Attempt) : List Slot :=
  s.slots.filter fun x => x.task == a && !x.filled

/-- The attempt has a place in the queue. -/
def InQueue (s : Store) (a : Attempt) : Prop := ∃ q ∈ s.queueItems, q.task = a

/-- The current attempt of the task is in the queue, or in one slot of an active strategy that has not
let it in, or neither, and then it was evicted. -/
def Accounted (evicted : List Attempt) (s : Store) (t : Task) : Prop :=
  (s.InQueue t.attempt ∧ s.pendingFor t.attempt = []) ∨
    (¬ s.InQueue t.attempt ∧ ∃ x, s.pendingFor t.attempt = [x] ∧
      ∃ y ∈ s.activeStrategies t.tenantId, y.id = x.strategyId) ∨
    (¬ s.InQueue t.attempt ∧ s.pendingFor t.attempt = [] ∧ t.attempt ∈ evicted)

theorem Standing.pendingFor_eq (standing : s.Standing t) :
    s.pendingFor t.attempt = (s.slotsFor t.id).filter (!·.filled) := by
  rw [pendingFor, slotsFor, List.filter_filter]
  refine List.filter_congr fun x hx => ?_
  by_cases mine : x.task.id = t.id
  · have same : x.task = t.attempt := (standing.own x (mem_slotsFor.mpr ⟨hx, mine⟩)).2.1
    simp [same, Task.attempt]
  · have other : x.task ≠ t.attempt := fun same => mine (by rw [same]; rfl)
    rw [beq_false_of_ne mine, beq_false_of_ne other, Bool.false_and, Bool.and_false]

theorem Standing.inQueue_iff (standing : s.Standing t) :
    s.InQueue t.attempt ↔ ∃ q ∈ s.queueItems, q.task.id = t.id := by
  constructor
  · rintro ⟨q, hq, same⟩
    exact ⟨q, hq, by rw [same]; rfl⟩
  · rintro ⟨q, hq, mine⟩
    exact ⟨q, hq, by rw [(standing.item q hq mine).1]⟩

theorem Waits.pending_eq (waits : s.Waits t before x) (waiting : x.filled = false) :
    (s.slotsFor t.id).filter (!·.filled) = [x] := by
  have passed : before.filter (!·.filled) = [] := by
    refine List.filter_eq_nil_iff.mpr fun y hy => ?_
    simp [waits.filled y hy]
  rw [waits.slots, List.filter_append, passed]
  simp [waiting]

theorem Sound.accounted (sound : s.Sound) (awake : s.Awake) (kept : Kept evicted s)
    (ht : t ∈ s.tasks) (queued : t.state = .queued) : Accounted evicted s t := by
  have standing := sound.standing t ht
  rw [Accounted, standing.pendingFor_eq, standing.inQueue_iff]
  by_cases inQueue : ∃ q ∈ s.queueItems, q.task.id = t.id
  · obtain ⟨q, hq, mine⟩ := inQueue
    have passed := (standing.item q hq mine).2.2
    refine Or.inl ⟨⟨q, hq, mine⟩, List.filter_eq_nil_iff.mpr fun x hx => ?_⟩
    simp [passed.2 x hx]
  refine Or.inr ?_
  by_cases pending : ∃ x ∈ s.slotsFor t.id, x.filled = false
  · obtain ⟨x, hx, waiting⟩ := pending
    obtain ⟨before, waits⟩ := standing.waits (sound.wired t ht) hx waiting
    have listed := (mem_slotsFor.mp hx).1
    obtain ⟨y, hy, named, owner⟩ := sound.slot_offered listed
    refine Or.inl ⟨inQueue, x, waits.pending_eq waiting, y, ?_, named⟩
    have active := awake x listed y hy named
    rw [(standing.own x hx).1] at owner
    exact List.mem_filter.mpr ⟨hy, by simp [owner, active]⟩
  · have none : (s.slotsFor t.id).filter (!·.filled) = [] := by
      refine List.filter_eq_nil_iff.mpr fun x hx unfilled => pending ⟨x, hx, ?_⟩
      simpa using unfilled
    have gone := (kept t ht queued).resolve_right fun holds => holds.elim inQueue pending
    exact Or.inr ⟨inQueue, none, gone⟩

/-- In every state that a store can be in, a task that waits is in its queue, or in one slot of a
strategy that is active, or was evicted by one. -/
theorem reachable_queued_accounted (reached : Reachable evicted s) :
    ∀ t ∈ s.tasks, t.state = .queued → Accounted evicted s t := by
  obtain ⟨internalRetries, moves⟩ := reached.moves
  obtain ⟨awake, kept⟩ := moves.kept (sound_empty internalRetries) (by intro x hx; cases hx)
    (by intro t ht; cases ht)
  exact fun t ht queued => reached.sound.accounted awake kept ht queued

/-- Of two tasks of a user one waits in its next strategy, and the other was evicted. -/
theorem mailed_queued_accounted : ∃ s, Reachable [⟨2, 0⟩] s ∧
    (s.pendingFor ⟨1, 0⟩).length = 1 ∧ s.pendingFor ⟨2, 0⟩ = [] ∧
      (s.tasks.all fun t => t.state == .queued) = true ∧
        ∀ t ∈ s.tasks, t.state = .queued → Accounted [⟨2, 0⟩] s t := by
  have reached := mailed_reachable.after _ mailed_run
  exact ⟨_, reached, rfl, rfl, rfl, reachable_queued_accounted reached⟩

end WorkflowEngine.Store
