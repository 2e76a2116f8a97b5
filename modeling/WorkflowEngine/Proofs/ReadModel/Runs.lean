import WorkflowEngine.Proofs.ReadModel.Rollup
import WorkflowEngine.Proofs.ReadModel.Status

/-!
What the row of a run shows of its tasks. A row that came while no task had moved is never ahead of its
tasks, and refreshing it brings it level. A pass that moves a task leaves an update waiting for its run,
which lasts until the run is refreshed.
-/

namespace WorkflowEngine.ReadModel

open Fallible

variable {m m' : ReadModel} {row row' : DagRow} {i : DagId} {tenant : TenantId} {share limit n : Nat}
  {now : Instant}

/-! ### The rows of runs -/

/-- The rows of runs are in the order of their ids. -/
def RunsOrdered (m : ReadModel) : Prop := m.dags.Pairwise fun a b => a.id < b.id

/-- An update of the run waits to be folded. -/
def DagWaits (m : ReadModel) (i : DagId) : Prop := ∃ q ∈ m.pendingDags, q.2.dagId = i

theorem dag?_id (found : m.dag? i = some row) : row.id = i := by
  simpa using List.find?_some found

theorem dag?_of_mem (ordered : m.RunsOrdered) (member : row ∈ m.dags) : m.dag? row.id = some row := by
  have nodup : (m.dags.map (·.id)).Nodup :=
    List.pairwise_map.mpr (ordered.imp fun less => Int.ne_of_lt less)
  cases found : m.dag? row.id with
  | none =>
    have absent := List.find?_eq_none.mp found row member
    simp at absent
  | some other =>
    rw [List.inj_on_of_nodup_map nodup (List.mem_of_find?_eq_some found) member (dag?_id found)]

theorem dag?_sublist (ordered : m.RunsOrdered) (fewer : m'.dags.Sublist m.dags)
    (found : m'.dag? i = some row) : m.dag? i = some row := by
  rw [← dag?_id found]
  exact dag?_of_mem ordered (fewer.subset (List.mem_of_find?_eq_some found))

theorem addDag_dag? (m : ReadModel) (d : Dag) :
    (m.addDag d).dag? i = if i = d.id ∧ m.dag? d.id = none then some (.ofDag d) else m.dag? i := by
  unfold addDag
  split
  · rename_i known
    rw [if_neg fun both => by rw [both.2] at known; cases known]
  rename_i missing
  rw [Option.not_isSome_iff_eq_none] at missing
  obtain ⟨first, rest, split, put⟩ := @Ascending.put_key_split _ (.ofDag d) _ DagRow.id
    fun r member same => List.find?_eq_none.mp missing r member (beq_iff_eq.mpr same)
  have absent : first.find? (·.id == d.id) = none := by
    have all := missing
    rw [dag?, split, List.find?_append, Option.or_eq_none_iff] at all
    exact all.1
  have placed : (Ascending.put (fun a b => decide (a.id < b.id)) (.ofDag d) m.dags).find? (·.id == i) =
      if i = d.id then some (.ofDag d) else m.dag? i := by
    rw [put, dag?, split, List.find?_append, List.find?_cons, List.find?_append]
    by_cases own : i = d.id
    · have same : ((DagRow.ofDag d).id == i) = true := beq_iff_eq.mpr own.symm
      rw [if_pos own, same, own, absent, Option.none_or]
    · have other : ((DagRow.ofDag d).id == i) = false := beq_eq_false_iff_ne.mpr (Ne.symm own)
      rw [if_neg own, other]
  refine placed.trans ?_
  simp only [missing, and_true]

theorem addDag_same (m : ReadModel) (d : Dag) :
    (m.addDag d).tasks = m.tasks ∧ (m.addDag d).pendingDags = m.pendingDags := by
  unfold addDag
  split <;> exact ⟨rfl, rfl⟩

theorem addDag_ordered (ordered : m.RunsOrdered) (d : Dag) : (m.addDag d).RunsOrdered := by
  unfold addDag
  split
  · exact ordered
  · exact Ascending.put_key_pairwise ordered

theorem addDags_dag? {ds : List Dag} (found : (ds.foldl addDag m).dag? i = some row) :
    m.dag? i = some row ∨ (m.dag? i = none ∧ row.status = .queued) := by
  induction ds generalizing m with
  | nil => exact Or.inl found
  | cons d rest ih =>
    rcases ih found with before | ⟨missing, fresh⟩
    · rw [addDag_dag?] at before
      split at before
      · rename_i new
        cases before
        exact Or.inr ⟨new.1 ▸ new.2, rfl⟩
      · exact Or.inl before
    · refine Or.inr ⟨?_, fresh⟩
      rw [addDag_dag?] at missing
      split at missing
      · cases missing
      · exact missing

theorem addDags_same (m : ReadModel) (ds : List Dag) :
    (ds.foldl addDag m).tasks = m.tasks ∧ (ds.foldl addDag m).pendingDags = m.pendingDags := by
  induction ds generalizing m with
  | nil => exact ⟨rfl, rfl⟩
  | cons d rest ih =>
    obtain ⟨tasks, waits⟩ := ih (m.addDag d)
    exact ⟨tasks.trans (addDag_same m d).1, waits.trans (addDag_same m d).2⟩

theorem addTasks_runs (m : ReadModel) (ts : List Task) :
    (ts.foldl addTask m).dags = m.dags ∧ (ts.foldl addTask m).pendingDags = m.pendingDags := by
  induction ts generalizing m with
  | nil => exact ⟨rfl, rfl⟩
  | cons t rest ih =>
    obtain ⟨dags, waits⟩ := ih (m.addTask t)
    rw [List.foldl_cons, dags, waits]
    unfold addTask
    split <;> exact ⟨rfl, rfl⟩

/-! ### A pass over the events -/

theorem applyAll_runs (m : ReadModel) (fs : List Folded) :
    (m.applyAll fs).2.dags = m.dags ∧ (m.applyAll fs).2.pendingDags = m.pendingDags := by
  induction fs generalizing m with
  | nil => exact ⟨rfl, rfl⟩
  | cons f rest ih =>
    obtain ⟨dags, waits⟩ := ih (m.applyFolded f).2
    refine ⟨dags.trans ?_, waits.trans ?_⟩ <;> unfold applyFolded <;> split <;> rfl

theorem queueDag_runs (m : ReadModel) (tenant : TenantId) (now : Instant) (id : DagId) :
    (m.queueDag tenant now id).dags = m.dags ∧ m.pendingDags ⊆ (m.queueDag tenant now id).pendingDags ∧
      (m.queueDag tenant now id).DagWaits id := by
  unfold queueDag
  split
  · rename_i waits
    obtain ⟨q, hq, fresh⟩ := List.any_eq_true.mp waits
    exact ⟨rfl, List.Subset.refl _, q, hq, eq_of_beq (Bool.and_eq_true _ _ ▸ fresh).1⟩
  · exact ⟨rfl, List.subset_append_left _ _, _, List.mem_append_right _ List.mem_cons_self, rfl⟩

theorem queueDags_runs (m : ReadModel) (tenant : TenantId) (now : Instant) (ids : List DagId) :
    let m' := ids.foldl (fun m id => m.queueDag tenant now id) m
    m'.dags = m.dags ∧ m.pendingDags ⊆ m'.pendingDags ∧ ∀ id ∈ ids, m'.DagWaits id := by
  induction ids generalizing m with
  | nil => exact ⟨rfl, List.Subset.refl _, fun _ h => absurd h List.not_mem_nil⟩
  | cons id rest ih =>
    obtain ⟨dags, more, waits⟩ := ih (m.queueDag tenant now id)
    obtain ⟨dags', more', q, hq, own⟩ := queueDag_runs m tenant now id
    refine ⟨dags.trans dags', List.Subset.trans more' more, List.forall_mem_cons.mpr ⟨⟨q, more hq, own⟩, waits⟩⟩

/-- A pass over the events as far as runs go: rows of tasks are written over, and then the runs that
this told of are queued. -/
theorem foldTasks_steps (done : m.foldTasks tenant share limit now = .ok (n, m')) :
    ∃ (start m₂ : ReadModel) (fs : List Folded),
      (start.tasks = m.tasks ∧ start.dags = m.dags ∧ start.pendingDags = m.pendingDags) ∧
      (m₂.tasks = (start.applyAll fs).2.tasks ∧ m₂.dags = (start.applyAll fs).2.dags ∧
        m₂.pendingDags = (start.applyAll fs).2.pendingDags) ∧
      m' = (start.applyAll fs).1.foldl (fun m id => m.queueDag tenant now id) m₂ := by
  simp only [foldTasks] at done
  obtain ⟨m₂, back, done⟩ := bind_ok done
  cases done
  refine ⟨{ m with
    pendingEvents := (takeDue (eventDue tenant share now) limit m.pendingEvents).2 }, m₂,
    foldPending ((takeDue (eventDue tenant share now) limit m.pendingEvents).1.map (·.2)),
    ⟨rfl, rfl, rfl⟩, ?_, rfl⟩
  obtain ⟨_, _, back⟩ := bind_ok back
  cases back
  exact ⟨rfl, rfl, rfl⟩

/-- A pass over the events changes no row of a run. If a task of a run has moved, an update waits. -/
theorem foldTasks_runs (ordered : m.Ordered)
    (done : m.foldTasks tenant share limit now = .ok (n, m')) :
    m'.dags = m.dags ∧ m.pendingDags ⊆ m'.pendingDags ∧ Risen (m.dagStatuses i) (m'.dagStatuses i) ∧
      (m'.dagStatuses i = m.dagStatuses i ∨ m'.DagWaits i) := by
  obtain ⟨start, m₂, fs, ⟨tasks, dags, waits⟩, ⟨tasks₂, dags₂, waits₂⟩, rfl⟩ := foldTasks_steps done
  have startOrdered : start.Ordered := by
    rw [Ordered, tasks]
    exact ordered
  obtain ⟨risen, moved⟩ := applyAll_statuses (i := i) startOrdered fs
  obtain ⟨dags₁, waits₁⟩ := applyAll_runs start fs
  obtain ⟨dags₃, more, told⟩ := queueDags_runs m₂ tenant now (start.applyAll fs).1
  have queued := @queueDags_same m₂ tenant now (start.applyAll fs).1
  have statuses := dagStatuses_congr (i := i) (queued.1.trans tasks₂)
  rw [statuses, ← dagStatuses_congr tasks]
  refine ⟨dags₃.trans (dags₂.trans (dags₁.trans dags)), ?_, risen, moved.imp_right (told i)⟩
  rw [← waits, ← waits₁, ← waits₂]
  exact more

/-! ### A pass over the runs -/

theorem find?_replaceDag {rows : List DagRow} {id : DagId} {status : Status} :
    (rows.map fun r => if r.id == id then { r with status } else r).find? (·.id == i) =
      (rows.find? (·.id == i)).map fun r => if r.id == id then { r with status } else r := by
  rw [List.find?_map]
  congr 2
  funext r
  rw [Function.comp_apply]
  split <;> rfl

/-- Refreshing a run that is not ahead of its tasks brings it level with them. -/
theorem refreshDag_dag? {r : DagRow} (found : m.dag? i = some row)
    (behind : row.status.rank ≤ (foldDagStatus row.totalTasks (m.dagStatuses i)).rank)
    (known : m.dag? r.id = some r) :
    (m.refreshDag r).dag? i = some (if r.id = i then
      { row with status := foldDagStatus row.totalTasks (m.dagStatuses i) } else row) := by
  unfold refreshDag
  simp only
  split
  · rename_i higher
    change List.find? _ (List.map _ _) = _
    rw [find?_replaceDag]
    change Option.map _ (m.dag? i) = _
    rw [found, Option.map_some, dag?_id found]
    by_cases own : r.id = i
    · rw [own, found] at known
      cases known
      rw [own, if_pos rfl, beq_self_eq_true, if_pos rfl]
    · rw [if_neg own, if_neg fun same => own (eq_of_beq same).symm]
  · rename_i level
    rw [found]
    by_cases own : r.id = i
    · rw [own, found] at known
      cases known
      have equal : row.status = foldDagStatus row.totalTasks (m.dagStatuses i) := by
        rw [own, Status.outranks, decide_eq_true_eq, Nat.not_lt] at level
        exact Status.rank_injective (Nat.le_antisymm behind level)
      rw [if_pos own, ← equal]
    · rw [if_neg own]

theorem refreshDag_same (m : ReadModel) (r : DagRow) :
    (m.refreshDag r).tasks = m.tasks ∧ (m.refreshDag r).pendingDags = m.pendingDags ∧
      (m.refreshDag r).dags.map (·.id) = m.dags.map (·.id) := by
  unfold refreshDag
  simp only
  split
  · refine ⟨rfl, rfl, ?_⟩
    rw [List.map_map]
    refine List.map_congr_left fun r' _ => ?_
    rw [Function.comp_apply]
    split <;> rfl
  · exact ⟨rfl, rfl, rfl⟩

/-- An update refreshes the row of its run, or the run has no row. -/
theorem foldDag_ok {p : PendingDag} (done : m.foldDag share now p = .ok m') :
    m'.tasks = m.tasks ∧ m.pendingDags ⊆ m'.pendingDags ∧
      m'.dags.map (·.id) = m.dags.map (·.id) ∧
      ((m.dag? p.dagId = none ∧ m'.dags = m.dags) ∨
        ∃ r, m.dag? p.dagId = some r ∧ m' = m.refreshDag r) := by
  unfold foldDag at done
  split at done
  · rename_i r known
    cases done
    obtain ⟨tasks, waits, ids⟩ := refreshDag_same m r
    exact ⟨tasks, waits ▸ List.Subset.refl _, ids, Or.inr ⟨r, known, rfl⟩⟩
  · rename_i missing
    split at done
    · obtain ⟨_, _, done⟩ := bind_ok done
      cases done
      exact ⟨rfl, List.subset_append_left _ _, rfl, Or.inl ⟨missing, rfl⟩⟩
    · cases done
      exact ⟨rfl, List.Subset.refl _, rfl, Or.inl ⟨missing, rfl⟩⟩

theorem mem_firstUpdates {seen : List DagId} {batch : List PendingDag} {p : PendingDag}
    (member : p ∈ batch) (unseen : p.dagId ∉ seen) :
    ∃ q ∈ firstUpdates seen batch, q.dagId = p.dagId := by
  induction batch generalizing seen with
  | nil => cases member
  | cons first rest ih =>
    unfold firstUpdates
    split
    · rename_i known
      rcases List.mem_cons.mp member with rfl | later
      · exact absurd (List.contains_iff_mem.mp known) unseen
      · exact ih later unseen
    · rcases List.mem_cons.mp member with rfl | later
      · exact ⟨_, List.mem_cons_self, rfl⟩
      · by_cases same : p.dagId = first.dagId
        · exact ⟨first, List.mem_cons_self, same.symm⟩
        · obtain ⟨q, hq, own⟩ := ih later fun h => (List.mem_cons.mp h).elim same unseen
          exact ⟨q, List.mem_cons_of_mem _ hq, own⟩

/-! ### Runs that are level with their tasks -/

/-- The row of a run is not ahead of its tasks, and is level with them unless an update waits. -/
structure Tracked (m : ReadModel) (i : DagId) (row : DagRow) : Prop where
  found : m.dag? i = some row
  behind : row.status.rank ≤ (foldDagStatus row.totalTasks (m.dagStatuses i)).rank
  level : row.status = foldDagStatus row.totalTasks (m.dagStatuses i) ∨ m.DagWaits i

theorem DagWaits.mono (waits : m.DagWaits i) (more : m.pendingDags ⊆ m'.pendingDags) : m'.DagWaits i := by
  obtain ⟨q, hq, own⟩ := waits
  exact ⟨q, more hq, own⟩

/-- What matters of a run is its row, the status that its tasks give it and what waits. -/
theorem Tracked.congr (tracked : m.Tracked i row) (found : m'.dag? i = some row)
    (status : foldDagStatus row.totalTasks (m'.dagStatuses i) =
      foldDagStatus row.totalTasks (m.dagStatuses i))
    (more : m.pendingDags ⊆ m'.pendingDags) : m'.Tracked i row :=
  ⟨found, status ▸ tracked.behind, status ▸ tracked.level.imp_right fun waits => waits.mono more⟩

/-- A pass over the events may leave the run behind, but not without an update. -/
theorem Tracked.foldTasks (tracked : m.Tracked i row) (ordered : m.Ordered)
    (done : m.foldTasks tenant share limit now = .ok (n, m')) : m'.Tracked i row := by
  obtain ⟨dags, more, risen, moved⟩ := foldTasks_runs (i := i) ordered done
  refine ⟨?_, Nat.le_trans tracked.behind (foldDagStatus_mono risen), ?_⟩
  · rw [dag?, dags]
    exact tracked.found
  · rcases moved with same | waits
    · rw [same]
      exact tracked.level.imp_right fun waits => waits.mono more
    · exact Or.inr waits

/-- The row of the run stays as it is or is brought level with its tasks, of which none changes. -/
structure Levels (m m' : ReadModel) (i : DagId) (row row' : DagRow) : Prop where
  found : m'.dag? i = some row'
  tasks : m'.tasks = m.tasks
  waits : m.pendingDags ⊆ m'.pendingDags
  total : row'.totalTasks = row.totalTasks
  status : row' = row ∨ row'.status = foldDagStatus row.totalTasks (m.dagStatuses i)

namespace Levels

theorem aim (levels : Levels m m' i row row') : foldDagStatus row'.totalTasks (m'.dagStatuses i) =
    foldDagStatus row.totalTasks (m.dagStatuses i) := by
  rw [levels.total, dagStatuses_congr levels.tasks]

theorem behind (levels : Levels m m' i row row')
    (behind : row.status.rank ≤ (foldDagStatus row.totalTasks (m.dagStatuses i)).rank) :
    row'.status.rank ≤ (foldDagStatus row'.totalTasks (m'.dagStatuses i)).rank := by
  rw [levels.aim]
  rcases levels.status with rfl | level
  · exact behind
  · exact Nat.le_of_eq (congrArg _ level)

theorem trans {m₁ : ReadModel} {row₁ : DagRow} (first : Levels m m₁ i row row₁)
    (second : Levels m₁ m' i row₁ row') : Levels m m' i row row' where
  found := second.found
  tasks := second.tasks.trans first.tasks
  waits := List.Subset.trans first.waits second.waits
  total := second.total.trans first.total
  status := by
    rcases second.status with rfl | level
    · exact first.status
    · exact Or.inr (level.trans first.aim)

/-- A row that is level stays level. -/
theorem level (levels : Levels m m' i row row')
    (level : row.status = foldDagStatus row.totalTasks (m.dagStatuses i)) :
    row'.status = foldDagStatus row.totalTasks (m.dagStatuses i) :=
  levels.status.elim (fun same => same ▸ level) id

end Levels

/-- An update of the run brings it level. -/
theorem foldDag_levels {p : PendingDag} (done : m.foldDag share now p = .ok m')
    (found : m.dag? i = some row)
    (behind : row.status.rank ≤ (foldDagStatus row.totalTasks (m.dagStatuses i)).rank) :
    ∃ row', Levels m m' i row row' ∧
      (p.dagId = i → row'.status = foldDagStatus row.totalTasks (m.dagStatuses i)) := by
  obtain ⟨tasks, waits, _, step⟩ := foldDag_ok done
  rcases step with ⟨missing, dags⟩ | ⟨r, known, rfl⟩
  · refine ⟨row, ⟨by rw [dag?, dags]; exact found, tasks, waits, rfl, Or.inl rfl⟩, fun own => ?_⟩
    rw [own, found] at missing
    cases missing
  · have refreshed := refreshDag_dag? found behind (by rw [dag?_id known]; exact known)
    rw [dag?_id known] at refreshed
    by_cases own : p.dagId = i
    · rw [if_pos own] at refreshed
      exact ⟨_, ⟨refreshed, tasks, waits, rfl, Or.inr rfl⟩, fun _ => rfl⟩
    · rw [if_neg own] at refreshed
      exact ⟨row, ⟨refreshed, tasks, waits, rfl, Or.inl rfl⟩, fun same => absurd same own⟩

/-- The updates of a batch: those of the run bring it level. -/
theorem foldUpdates_levels {ps : List PendingDag}
    (done : ps.foldlM (fun m p => m.foldDag share now p) m = .ok m') (found : m.dag? i = some row)
    (behind : row.status.rank ≤ (foldDagStatus row.totalTasks (m.dagStatuses i)).rank) :
    ∃ row', Levels m m' i row row' ∧
      ((∃ p ∈ ps, p.dagId = i) → row'.status = foldDagStatus row.totalTasks (m.dagStatuses i)) := by
  induction ps generalizing m row with
  | nil =>
    cases done
    refine ⟨row, ⟨found, rfl, List.Subset.refl _, rfl, Or.inl rfl⟩, ?_⟩
    rintro ⟨_, member, _⟩
    cases member
  | cons p rest ih =>
    rw [List.foldlM_cons] at done
    obtain ⟨m₁, first, done⟩ := bind_ok done
    obtain ⟨row₁, step, own⟩ := foldDag_levels first found behind
    obtain ⟨row', later, own'⟩ := ih done step.found (step.behind behind)
    refine ⟨row', step.trans later, ?_⟩
    rintro ⟨q, hq, mine⟩
    rcases List.mem_cons.mp hq with rfl | hq
    · exact (later.level ((own mine).trans step.aim.symm)).trans step.aim
    · exact (own' ⟨q, hq, mine⟩).trans step.aim

/-- A pass over the runs brings a run level, or does not take its update. -/
theorem Tracked.foldDags (tracked : m.Tracked i row)
    (done : m.foldDags tenant share limit now = .ok (n, m')) : ∃ row', m'.Tracked i row' := by
  obtain ⟨_, folded, done⟩ := bind_ok done
  cases done
  obtain ⟨row', levels, own⟩ :=
    foldUpdates_levels folded (show ReadModel.dag? _ i = some row from tracked.found) tracked.behind
  have fold : ∀ level : row'.status = foldDagStatus row.totalTasks (m.dagStatuses i),
      m'.Tracked i row' := fun level =>
    ⟨levels.found, levels.behind tracked.behind, Or.inl (level.trans levels.aim.symm)⟩
  refine ⟨row', ?_⟩
  rcases levels.status with rfl | level
  · rcases tracked.level with level | ⟨q, hq, mine⟩
    · exact fold level
    · rcases (@mem_takeDue _ (dagDue tenant share now) limit _ _).mp hq with taken | kept
      · obtain ⟨p, hp, same⟩ := @mem_firstUpdates [] _ _ (List.mem_map.mpr ⟨q, taken, rfl⟩)
          List.not_mem_nil
        exact fold (own ⟨p, hp, same.trans mine⟩)
      · exact ⟨levels.found, levels.behind tracked.behind, Or.inr ⟨q, levels.waits kept, mine⟩⟩
  · exact fold level

/-! ### Operations -/

theorem maintainTable_runs (m : ReadModel) (now : Instant) (t : Table) :
    (m.maintainTable now t).2.dags.Sublist m.dags ∧
      (m.maintainTable now t).2.pendingDags = m.pendingDags := by
  cases t with
  | dags => exact ⟨List.filter_sublist, rfl⟩
  | tasks | runs => exact ⟨List.Sublist.refl _, rfl⟩

theorem maintain_runs (m : ReadModel) (now : Instant) :
    (m.maintain now).2.dags.Sublist m.dags ∧ (m.maintain now).2.pendingDags = m.pendingDags := by
  obtain ⟨rows₁, waits₁⟩ := maintainTable_runs m now .tasks
  obtain ⟨rows₂, waits₂⟩ := maintainTable_runs (m.maintainTable now .tasks).2 now .dags
  obtain ⟨rows₃, waits₃⟩ :=
    maintainTable_runs ((m.maintainTable now .tasks).2.maintainTable now .dags).2 now .runs
  exact ⟨(rows₃.trans rows₂).trans rows₁, (waits₃.trans waits₂).trans waits₁⟩

variable {op : Operation} {taken : List Pending}

/-- What an operation may do to the rows of runs. -/
inductive WrittenRuns (m : ReadModel) : ReadModel → Prop where
  | addedTasks (ts : List Task) : WrittenRuns m (ts.foldl addTask m)
  | addedDags (ds : List Dag) : WrittenRuns m (ds.foldl addDag m)
  | dropped {m' : ReadModel} (tasks : m'.tasks.Sublist m.tasks) (dags : m'.dags.Sublist m.dags)
      (waits : m'.pendingDags = m.pendingDags) : WrittenRuns m m'
  | foldedTasks {tenant : TenantId} {share limit n : Nat} {now : Instant} {m' : ReadModel}
      (done : m.foldTasks tenant share limit now = .ok (n, m')) : WrittenRuns m m'
  | foldedDags {tenant : TenantId} {share limit n : Nat} {now : Instant} {m' : ReadModel}
      (done : m.foldDags tenant share limit now = .ok (n, m')) : WrittenRuns m m'

theorem perform_runs (done : m.perform op = .ok (taken, m')) : m.WrittenRuns m' := by
  cases performs done with
  | createTasks created =>
    rw [createTasks_rows created]
    exact .addedTasks _
  | createDags created =>
    rw [createDags_rows created]
    exact .addedDags _
  | foldTasks folded => exact .foldedTasks folded
  | foldDags folded => exact .foldedDags folded
  | maintain now =>
    exact .dropped (maintain_same m now).1 (maintain_runs m now).1 (maintain_runs m now).2
  | insertEvents | attachPartition =>
    exact .dropped (List.Sublist.refl _) (List.Sublist.refl _) rfl

theorem foldDags_ids (done : m.foldDags tenant share limit now = .ok (n, m')) :
    m'.dags.map (·.id) = m.dags.map (·.id) := by
  obtain ⟨_, folded, done⟩ := bind_ok done
  cases done
  exact foldlM_ok (P := fun m' => m'.dags.map (·.id) = m.dags.map (·.id)) folded rfl
    fun _ _ _ _ same step => (foldDag_ok step).2.2.1.trans same

theorem WrittenRuns.ordered (written : m.WrittenRuns m') (rows : m.Ordered)
    (ordered : m.RunsOrdered) : m'.RunsOrdered := by
  cases written with
  | addedTasks ts =>
    rw [RunsOrdered, (addTasks_runs m ts).1]
    exact ordered
  | addedDags ds => exact List.foldlRecOn _ _ ordered fun _ ordered d _ => addDag_ordered ordered d
  | dropped _ dags => exact ordered.sublist dags
  | foldedTasks done =>
    rw [RunsOrdered, (foldTasks_runs (i := 0) rows done).1]
    exact ordered
  | foldedDags done =>
    rw [RunsOrdered, ← List.pairwise_map (R := (· < ·))] at ordered ⊢
    exact (foldDags_ids done) ▸ ordered

/-- A run without a row gets one by being created only, and is queued then. -/
theorem WrittenRuns.new (written : m.WrittenRuns m') (rows : m.Ordered) (ordered : m.RunsOrdered)
    (missing : m.dag? i = none) (found : m'.dag? i = some row) :
    row.status = .queued ∧ m'.tasks = m.tasks := by
  have still : m'.dags.map (·.id) = m.dags.map (·.id) → m'.dag? i = none := by
    intro ids
    rw [dag?, List.find?_eq_none] at missing ⊢
    intro r member own
    have listed : r.id ∈ m.dags.map (·.id) := ids ▸ List.mem_map_of_mem member
    obtain ⟨r', hr', same⟩ := List.mem_map.mp listed
    exact missing r' hr' (beq_iff_eq.mpr (same.trans (eq_of_beq own)))
  have lost : m'.dag? i = none → row.status = .queued ∧ m'.tasks = m.tasks := by
    intro absent
    rw [absent] at found
    cases found
  cases written with
  | addedTasks ts => exact lost (still (congrArg _ (addTasks_runs m ts).1))
  | addedDags ds =>
    rcases addDags_dag? found with before | ⟨_, fresh⟩
    · rw [missing] at before
      cases before
    · exact ⟨fresh, (addDags_same m ds).1⟩
  | dropped _ dags =>
    have before := dag?_sublist ordered dags found
    rw [missing] at before
    cases before
  | foldedTasks done => exact lost (still (congrArg _ (foldTasks_runs (i := i) rows done).1))
  | foldedDags done => exact lost (still (foldDags_ids done))

/-- A row that is written before any task of the run moves is level with them. -/
theorem WrittenRuns.new_tracked (written : m.WrittenRuns m') (rows : m.Ordered) (ordered : m.RunsOrdered)
    (missing : m.dag? i = none) (present : (m'.dag? i).isSome)
    (unmoved : ∀ t ∈ m.tasks.filter (·.dagId == some i), t.status = .queued) :
    ∃ row, m'.Tracked i row := by
  obtain ⟨row, found⟩ := Option.isSome_iff_exists.mp present
  obtain ⟨fresh, tasks⟩ := written.new rows ordered missing found
  have level : foldDagStatus row.totalTasks (m'.dagStatuses i) = .queued := by
    refine foldDagStatus_queued fun s member => ?_
    rw [dagStatuses_congr tasks] at member
    obtain ⟨t, ht, rfl⟩ := List.mem_map.mp member
    exact unmoved t ht
  exact ⟨row, found, by rw [fresh, level], Or.inl (fresh.trans level.symm)⟩

/-- As long as neither the row of the run nor one of its tasks is dropped, an update waits whenever
the run is not level with its tasks. -/
theorem Tracked.written (tracked : m.Tracked i row) (written : m.WrittenRuns m') (rows : m.Ordered)
    (ordered : m.RunsOrdered) (lasts : (m'.dag? i).isSome)
    (kept : ∀ r ∈ m.tasks, r.dagId = some i → (m'.task? r.id).isSome) : ∃ row', m'.Tracked i row' := by
  obtain ⟨row', found⟩ := Option.isSome_iff_exists.mp lasts
  have same : m.dag? i = some row' → row' = row := fun before =>
    Option.some.inj (before.symm.trans tracked.found)
  cases written with
  | addedTasks ts =>
    obtain ⟨dags, waits⟩ := addTasks_runs m ts
    refine ⟨row, tracked.congr ?_ (addTasks_status m ts _) (waits ▸ List.Subset.refl _)⟩
    rw [dag?, dags]
    exact tracked.found
  | addedDags ds =>
    obtain ⟨tasks, waits⟩ := addDags_same m ds
    rcases addDags_dag? found with before | ⟨missing, _⟩
    · cases same before
      exact ⟨row, tracked.congr found (by rw [dagStatuses_congr tasks]) (waits ▸ List.Subset.refl _)⟩
    · rw [tracked.found] at missing
      cases missing
  | dropped tasks dags waits =>
    cases same (dag?_sublist ordered dags found)
    exact ⟨row, tracked.congr found (by rw [dropped_statuses rows tasks kept])
      (waits ▸ List.Subset.refl _)⟩
  | foldedTasks done => exact ⟨row, tracked.foldTasks rows done⟩
  | foldedDags done => exact tracked.foldDags done

/-! ### Runs of operations -/

variable {partitions days : Nat} {before later : List Operation}

/-- The row of a run, as long as the read model can be read. -/
def dagRow? (g : Guarded ReadModel) (i : DagId) : Option DagRow := g.get.toOption.bind (·.dag? i)

/-- The rows of the tasks of a run, as long as the read model can be read. -/
def taskRows (g : Guarded ReadModel) (i : DagId) : List TaskRow :=
  (g.get.toOption.map (·.tasks.filter (·.dagId == some i))).getD []

/-- The row of the run came with the first of the later operations, when none of the tasks that had a
row had moved, and is there since. Of its tasks none has lost its row since. -/
structure Unbroken (partitions days : Nat) (i : DagId) (before later : List Operation) : Prop where
  missing : dagRow? (after partitions days before) i = none
  unmoved : ∀ t ∈ taskRows (after partitions days before) i, t.status = .queued
  lasts : ∀ mid, mid <+: later → mid ≠ [] →
    (dagRow? (after partitions days (before ++ mid)) i).isSome
  kept : ∀ mid mid', mid <+: mid' → mid' <+: later →
    ∀ t ∈ taskRows (after partitions days (before ++ mid)) i,
      (row? (after partitions days (before ++ mid')) t.id).isSome

theorem Unbroken.shorter {shorter : List Operation} (unbroken : Unbroken partitions days i before later)
    (leads : shorter <+: later) : Unbroken partitions days i before shorter :=
  ⟨unbroken.missing, unbroken.unmoved, fun mid short => unbroken.lasts mid (short.trans leads),
    fun mid mid' less short => unbroken.kept mid mid' less (short.trans leads)⟩

theorem after_ordered {ops : List Operation} (readable : after partitions days ops = .sound m) :
    m.Ordered ∧ m.RunsOrdered := by
  induction ops using List.reverseRecOn generalizing m with
  | nil =>
    cases readable
    exact ⟨.nil, .nil⟩
  | append_singleton ops op ih =>
    obtain ⟨m₁, earlier, ⟨rfl, _⟩ | ⟨taken, done, _⟩⟩ := after_concat readable
    · exact ih earlier
    · obtain ⟨rows, runs⟩ := ih earlier
      exact ⟨(perform_written done).ordered rows, (perform_runs done).ordered rows runs⟩

/-- In any run the row of a workflow run that came in time is level with its tasks, or an update
waits. -/
theorem Unbroken.tracked (unbroken : Unbroken partitions days i before later) (begun : later ≠ [])
    (readable : after partitions days (before ++ later) = .sound m) : ∃ row, m.Tracked i row := by
  induction later using List.reverseRecOn generalizing m with
  | nil => exact absurd rfl begun
  | append_singleton later op ih =>
    have shorter := List.prefix_append later [op]
    have lasts := unbroken.lasts _ List.prefix_rfl begun
    have kept := unbroken.kept later _ shorter List.prefix_rfl
    rw [← List.append_assoc] at readable lasts kept
    rw [readable] at lasts kept
    obtain ⟨m₁, earlier, changed⟩ := after_concat readable
    obtain ⟨rows, runs⟩ := after_ordered earlier
    have present : (m.dag? i).isSome := lasts
    rw [earlier] at kept
    have still : ∀ t ∈ m₁.tasks, t.dagId = some i → (m.task? t.id).isSome := fun t member own =>
      kept t (List.mem_filter.mpr ⟨member, beq_iff_eq.mpr own⟩)
    by_cases first : later = []
    · subst first
      rw [List.append_nil] at earlier
      have missing := unbroken.missing
      have unmoved := unbroken.unmoved
      rw [earlier] at missing unmoved
      have missing : m₁.dag? i = none := missing
      rcases changed with ⟨rfl, _⟩ | ⟨taken, done, _⟩
      · rw [missing] at present
        cases present
      · exact (perform_runs done).new_tracked rows runs missing present unmoved
    · obtain ⟨row, tracked⟩ := ih (unbroken.shorter shorter) first earlier
      rcases changed with ⟨rfl, _⟩ | ⟨taken, done, _⟩
      · exact ⟨row, tracked⟩
      · exact tracked.written (perform_runs done) rows runs present still

/-- The status of a run that came before any of its tasks had moved is that of the fold over the rows
of its tasks, or an update of the run waits to be folded. -/
theorem dag_status_consistent {row : DagRow}
    (readable : after partitions days (before ++ later) = .sound m)
    (unbroken : Unbroken partitions days i before later) (found : m.dag? i = some row) :
    row.status = foldDagStatus row.totalTasks (m.dagStatuses i) ∨
      ∃ q ∈ m.pendingDags, q.2.dagId = i := by
  have begun : later ≠ [] := by
    rintro rfl
    rw [List.append_nil] at readable
    have missing := unbroken.missing
    rw [readable] at missing
    have missing : m.dag? i = none := missing
    rw [found] at missing
    cases missing
  obtain ⟨row', tracked⟩ := unbroken.tracked begun readable
  cases tracked.found.symm.trans found
  exact tracked.level

/-- Two tasks get their rows, and then their run gets its own. -/
def twoSteps : List Operation := [
  .attachPartition .tasks Instant.epoch.date,
  .attachPartition .dags Instant.epoch.date,
  .attachPartition .runs Instant.epoch.date,
  .createTasks default
    [{ (default : Task) with id := 1, dagId := some 7 }, { (default : Task) with id := 2, dagId := some 7 }]]

/-- The run starts and is refreshed, and both tasks come to their ends. -/
def bothEnded : List Operation := [
  .createDags default [{ (default : Dag) with id := 7, totalTasks := 2 }],
  .insertEvents .epoch default
    [{ (default : TaskEvent) with taskId := 1, eventType := .started, status := .running }],
  .foldTasks default 0 10 .epoch,
  .foldDags default 0 10 .epoch,
  .insertEvents .epoch default
    [{ (default : TaskEvent) with taskId := 1, eventType := .finished, status := .completed },
      { (default : TaskEvent) with taskId := 2, eventType := .cancelled, status := .cancelled }],
  .foldTasks default 0 10 .epoch]

theorem bothEnded_unbroken : Unbroken 1 7 7 twoSteps bothEnded := by
  have lasts : ∀ mid ∈ bothEnded.inits, mid.length ≠ 0 →
      (dagRow? (after 1 7 (twoSteps ++ mid)) 7).isSome := by
    decide +kernel
  have kept : ∀ mid' ∈ bothEnded.inits, ∀ mid ∈ mid'.inits,
      ∀ t ∈ taskRows (after 1 7 (twoSteps ++ mid)) 7,
        (row? (after 1 7 (twoSteps ++ mid')) t.id).isSome := by
    decide +kernel
  refine ⟨rfl, by decide +kernel, fun mid leads some => ?_, fun mid mid' less leads => ?_⟩
  · exact lasts mid ((List.mem_inits _ _).mpr leads) (mt List.eq_nil_of_length_eq_zero some)
  · exact kept mid' ((List.mem_inits _ _).mpr leads) mid ((List.mem_inits _ _).mpr less)

/-- The row of the run is behind its tasks, and so an update waits. -/
theorem bothEnded_waits : ∃ m row, after 1 7 (twoSteps ++ bothEnded) = .sound m ∧
    m.dag? 7 = some row ∧ row.status = .running ∧
    foldDagStatus row.totalTasks (m.dagStatuses 7) = .cancelled ∧
    ∃ q ∈ m.pendingDags, q.2.dagId = 7 := by
  obtain ⟨m, row, readable, found, status, fold⟩ : ∃ m row,
      after 1 7 (twoSteps ++ bothEnded) = .sound m ∧ m.dag? 7 = some row ∧ row.status = .running ∧
        foldDagStatus row.totalTasks (m.dagStatuses 7) = .cancelled := ⟨_, _, rfl, rfl, rfl, rfl⟩
  have consistent := dag_status_consistent readable bothEnded_unbroken found
  rw [status, fold] at consistent
  exact ⟨m, row, readable, found, status, fold, consistent.resolve_left (by decide)⟩

end WorkflowEngine.ReadModel
