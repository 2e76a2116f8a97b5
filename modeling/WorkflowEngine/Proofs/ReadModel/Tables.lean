import WorkflowEngine.Proofs.ReadModel.Maintenance

/-!
The tables in any run of operations, with clocks that go either way. Each operation is one change of the
tables of tasks and of runs as shelves; so rows stand for days that are there, the side tables tell of
rows that are there, and each row is found by its external id as long as these are distinct.
-/

namespace WorkflowEngine.ReadModel

open Fallible
open PartitionPlan (Ascends)

variable {m m' : ReadModel} {now : Instant} {t : Table} {tenant : TenantId} {share limit n : Nat}

/-! ### The shelves of tasks and of runs -/

def face (r : TaskRow) : Face := ⟨r.id, r.externalId, r.insertedAt.date⟩

def dagFace (r : DagRow) : Face := ⟨r.id, r.externalId, r.insertedAt.date⟩

def taskShelf (m : ReadModel) : Shelf :=
  ⟨m.tasks.map face, m.taskIndex, m.finishedAt.map (·.1), m.days.tasks⟩

def dagShelf (m : ReadModel) : Shelf := ⟨m.dags.map dagFace, m.dagIndex, [], m.days.dags⟩

/-- Days and limits are as they were. -/
structure SameDays (m m' : ReadModel) : Prop where
  days : m'.days = m.days
  retention : m'.retentionDays = m.retentionDays
  partitions : m'.partitionCount = m.partitionCount

theorem SameDays.refl (m : ReadModel) : m.SameDays m := ⟨rfl, rfl, rfl⟩

theorem SameDays.trans {m₁ : ReadModel} (first : m.SameDays m₁) (second : m₁.SameDays m') :
    m.SameDays m' :=
  ⟨second.days.trans first.days, second.retention.trans first.retention,
    second.partitions.trans first.partitions⟩

theorem map_put {α : Type} {key : α → Int} {shown : α → Face} (ids : ∀ a, (shown a).id = key a) (a : α)
    (l : List α) : (Ascending.put (fun a b => decide (key a < key b)) a l).map shown =
      Ascending.put (fun a b => decide (a.id < b.id)) (shown a) (l.map shown) := by
  induction l with
  | nil => rfl
  | cons b rest ih =>
    simp only [Ascending.put, List.map_cons, ids, decide_eq_true_eq]
    split
    · rfl
    · split
      · rw [List.map_cons, ih]
      · rfl

theorem addTask_shelf (m : ReadModel) (t : Task) :
    (m.addTask t).taskShelf = m.taskShelf.place (face (.ofTask t)) := by
  have known : m.taskShelf.faces.any (·.id == (face (.ofTask t)).id) = (m.task? t.id).isSome := by
    rw [Bool.eq_iff_iff, task?, List.find?_isSome]
    simp [taskShelf, face, TaskRow.ofTask]
  unfold addTask Shelf.place
  rw [known]
  split
  · rfl
  · exact congrArg (fun faces => Shelf.mk faces _ _ _) (map_put (fun _ => rfl) (.ofTask t) m.tasks)

theorem addDag_shelf (m : ReadModel) (d : Dag) :
    (m.addDag d).dagShelf = m.dagShelf.place (dagFace (.ofDag d)) := by
  have known : m.dagShelf.faces.any (·.id == (dagFace (.ofDag d)).id) = (m.dag? d.id).isSome := by
    rw [Bool.eq_iff_iff, dag?, List.find?_isSome]
    simp [dagShelf, dagFace, DagRow.ofDag]
  unfold addDag Shelf.place
  rw [known]
  split
  · rfl
  · exact congrArg (fun faces => Shelf.mk faces _ _ _) (map_put (fun _ => rfl) (.ofDag d) m.dags)

theorem addTask_frame (m : ReadModel) (t : Task) :
    m.SameDays (m.addTask t) ∧ (m.addTask t).dagShelf = m.dagShelf := by
  unfold addTask
  split <;> exact ⟨⟨rfl, rfl, rfl⟩, rfl⟩

theorem addDag_frame (m : ReadModel) (d : Dag) :
    m.SameDays (m.addDag d) ∧ (m.addDag d).taskShelf = m.taskShelf := by
  unfold addDag
  split <;> exact ⟨⟨rfl, rfl, rfl⟩, rfl⟩

theorem addTasks_shelf (m : ReadModel) (ts : List Task) : (ts.foldl addTask m).taskShelf =
    (ts.map fun t => face (.ofTask t)).foldl Shelf.place m.taskShelf := by
  rw [List.foldl_map]
  exact (List.foldl_hom taskShelf fun m t => (addTask_shelf m t).symm).symm

theorem addDags_shelf (m : ReadModel) (ds : List Dag) : (ds.foldl addDag m).dagShelf =
    (ds.map fun d => dagFace (.ofDag d)).foldl Shelf.place m.dagShelf := by
  rw [List.foldl_map]
  exact (List.foldl_hom dagShelf fun m d => (addDag_shelf m d).symm).symm

theorem addTasks_frame (m : ReadModel) (ts : List Task) :
    m.SameDays (ts.foldl addTask m) ∧ (ts.foldl addTask m).dagShelf = m.dagShelf := by
  induction ts generalizing m with
  | nil => exact ⟨.refl m, rfl⟩
  | cons t rest ih =>
    obtain ⟨same, dags⟩ := ih (m.addTask t)
    exact ⟨(addTask_frame m t).1.trans same, dags.trans (addTask_frame m t).2⟩

theorem addDags_frame (m : ReadModel) (ds : List Dag) :
    m.SameDays (ds.foldl addDag m) ∧ (ds.foldl addDag m).taskShelf = m.taskShelf := by
  induction ds generalizing m with
  | nil => exact ⟨.refl m, rfl⟩
  | cons d rest ih =>
    obtain ⟨same, tasks⟩ := ih (m.addDag d)
    exact ⟨(addDag_frame m d).1.trans same, tasks.trans (addDag_frame m d).2⟩

/-! ### Passes over events and updates -/

/-- A pass changes what rows show and when tasks have ended, and no more of a table. -/
structure Passes (m m' : ReadModel) : Prop where
  same : m.SameDays m'
  faces : m'.tasks.map face = m.tasks.map face
  index : m'.taskIndex = m.taskIndex
  ended : ∀ e ∈ m'.finishedAt, (∃ e' ∈ m.finishedAt, e'.1 = e.1) ∨ ∃ row ∈ m.tasks, row.id = e.1
  dags : m'.dagShelf = m.dagShelf

/-- What waits may be anything. -/
theorem Passes.waits (m : ReadModel) (events : List (Nat × Pending)) (dags : List (Nat × PendingDag)) :
    m.Passes { m with pendingEvents := events, pendingDags := dags } :=
  ⟨⟨rfl, rfl, rfl⟩, rfl, rfl, fun e he => Or.inl ⟨e, he, rfl⟩, rfl⟩

theorem Passes.refl (m : ReadModel) : m.Passes m := .waits m m.pendingEvents m.pendingDags

theorem Passes.trans {m₁ : ReadModel} (first : m.Passes m₁) (second : m₁.Passes m') : m.Passes m' := by
  refine ⟨first.same.trans second.same, second.faces.trans first.faces, second.index.trans first.index,
    fun e he => ?_, second.dags.trans first.dags⟩
  rcases second.ended e he with ⟨e', he', same⟩ | ⟨row, member, same⟩
  · exact same ▸ first.ended e' he'
  · have listed : face row ∈ m.tasks.map face := first.faces ▸ List.mem_map_of_mem member
    obtain ⟨row', member', shown⟩ := List.mem_map.mp listed
    exact Or.inr ⟨row', member', (congrArg Face.id shown).trans same⟩

theorem Passes.ordered (passes : m.Passes m') (ordered : m.Ordered) : m'.Ordered := by
  have byFace (m : ReadModel) : m.Ordered ↔ (m.tasks.map face).Pairwise fun a b => a.id < b.id := by
    rw [List.pairwise_map]
    rfl
  rwa [byFace, passes.faces, ← byFace]

theorem applyFolded_passes (ordered : m.Ordered) (f : Folded) : m.Passes (m.applyFolded f).2 := by
  unfold applyFolded
  split
  · exact .refl m
  · rename_i target accepted
    have member : target ∈ m.tasks :=
      List.mem_of_find?_eq_some (Option.filter_eq_some_iff.mp accepted).1
    refine ⟨⟨rfl, rfl, rfl⟩, ?_, rfl, fun e he => ?_, rfl⟩
    · rw [List.map_map]
      refine List.map_congr_left fun r listed => ?_
      rw [Function.comp_apply]
      split
      · rename_i same
        have here := task?_of_mem ordered listed
        rw [show r.id = target.id from eq_of_beq same, task?_of_mem ordered member] at here
        cases here
        rfl
      · rfl
    · split at he
      · rcases mem_putKey he with rfl | old
        · exact Or.inr ⟨target, member, rfl⟩
        · exact Or.inl ⟨e, old, rfl⟩
      · exact Or.inl ⟨e, (List.mem_filter.mp he).1, rfl⟩

theorem applyAll_passes (ordered : m.Ordered) (fs : List Folded) : m.Passes (m.applyAll fs).2 := by
  induction fs generalizing m with
  | nil => exact .refl m
  | cons f rest ih =>
    have first := applyFolded_passes ordered f
    exact first.trans (ih (first.ordered ordered))

theorem queueDags_passes (m : ReadModel) (tenant : TenantId) (now : Instant) (ids : List DagId) :
    m.Passes (ids.foldl (fun m id => m.queueDag tenant now id) m) := by
  refine List.foldlRecOn ids _ (.refl m) fun m' before id _ => before.trans ?_
  unfold queueDag
  split
  · exact .refl m'
  · exact .waits m' _ _

theorem putBack_passes {batch : List Pending} (done : m.putBack share now batch = .ok m') :
    m.Passes m' := by
  obtain ⟨again, _, done⟩ := bind_ok done
  cases done
  exact .waits m _ _

theorem foldTasks_passes (ordered : m.Ordered)
    (done : m.foldTasks tenant share limit now = .ok (n, m')) : m.Passes m' := by
  simp only [foldTasks] at done
  obtain ⟨m₁, back, done⟩ := bind_ok done
  cases done
  have start := Passes.waits m
    (takeDue (eventDue tenant share now) limit m.pendingEvents).2 m.pendingDags
  have applied := applyAll_passes (start.ordered ordered)
    (foldPending ((takeDue (eventDue tenant share now) limit m.pendingEvents).1.map (·.2)))
  exact ((start.trans applied).trans (putBack_passes back)).trans (queueDags_passes _ tenant now _)

theorem refreshDag_passes (m : ReadModel) (row : DagRow) : m.Passes (m.refreshDag row) := by
  unfold refreshDag
  simp only
  split
  · refine ⟨⟨rfl, rfl, rfl⟩, rfl, rfl, fun e he => Or.inl ⟨e, he, rfl⟩, ?_⟩
    refine congrArg (fun faces => Shelf.mk faces _ _ _) ?_
    rw [List.map_map]
    refine List.map_congr_left fun r _ => ?_
    rw [Function.comp_apply]
    split <;> rfl
  · exact .refl m

theorem foldDag_passes {p : PendingDag} (done : m.foldDag share now p = .ok m') : m.Passes m' := by
  unfold foldDag at done
  split at done
  · cases done
    exact refreshDag_passes m _
  · split at done
    · obtain ⟨_, _, done⟩ := bind_ok done
      cases done
      exact .waits m _ _
    · cases done
      exact .refl m

theorem foldDags_passes (done : m.foldDags tenant share limit now = .ok (n, m')) : m.Passes m' := by
  obtain ⟨m₁, folded, done⟩ := bind_ok done
  cases done
  exact foldlM_ok (P := fun m' => m.Passes m') folded (.waits m _ _)
    fun m₁ p _ m₂ before step => before.trans (foldDag_passes step)

/-! ### Operations -/

/-- Each operation is one change of either shelf, and keeps the days of every table in order. -/
structure Shelves (m m' : ReadModel) : Prop where
  tasks : m.taskShelf.Change m'.taskShelf
  dags : m.dagShelf.Change m'.dagShelf
  ascends : (∀ t, Ascends (m.days.get t)) → ∀ t, Ascends (m'.days.get t)
  retention : m'.retentionDays = m.retentionDays
  partitions : m'.partitionCount = m.partitionCount

theorem Passes.shelves (passes : m.Passes m') : m.Shelves m' := by
  obtain ⟨⟨days, retention, partitions⟩, faces, index, ended, dags⟩ := passes
  refine ⟨?_, dags ▸ .refl _, fun ascends => days ▸ ascends, retention, partitions⟩
  have same : m'.taskShelf = { m.taskShelf with ended := m'.finishedAt.map (·.1) } := by
    rw [taskShelf, faces, index, days]
    rfl
  rw [same]
  refine .ended _ fun i hi => ?_
  obtain ⟨e, he, rfl⟩ := List.mem_map.mp hi
  rcases ended e he with ⟨e', he', same⟩ | ⟨row, member, same⟩
  · exact Or.inl (List.mem_map.mpr ⟨e', he', same⟩)
  · exact Or.inr ⟨face row, List.mem_map_of_mem member, same⟩

theorem requirePartition_ok {moment : Instant} {u : Unit}
    (done : m.requirePartition t moment = .ok u) : moment.date ∈ m.days.get t := by
  unfold requirePartition at done
  split at done
  · rename_i listed
    exact List.contains_iff_mem.mp listed
  · cases done

theorem createTasks_shelves {ts : List Task} (done : m.createTasks tenant ts = .ok m') :
    m.Shelves m' := by
  obtain ⟨_, required, done⟩ := bind_ok done
  cases done
  obtain ⟨⟨days, retention, partitions⟩, dags⟩ := addTasks_frame m (ts.filter (·.tenantId == tenant))
  refine ⟨?_, dags ▸ .refl _, fun ascends => days ▸ ascends, retention, partitions⟩
  rw [addTasks_shelf]
  refine .placed _ fun f hf => ?_
  obtain ⟨t, ht, rfl⟩ := List.mem_map.mp hf
  obtain ⟨_, there, _⟩ := bind_ok (forM_ok required t (List.mem_filter.mp ht).1)
  exact requirePartition_ok there

theorem createDags_shelves {ds : List Dag} (done : m.createDags tenant ds = .ok m') : m.Shelves m' := by
  obtain ⟨_, required, done⟩ := bind_ok done
  cases done
  obtain ⟨⟨days, retention, partitions⟩, tasks⟩ := addDags_frame m (ds.filter (·.tenantId == tenant))
  refine ⟨tasks ▸ .refl _, ?_, fun ascends => days ▸ ascends, retention, partitions⟩
  rw [addDags_shelf]
  refine .placed _ fun f hf => ?_
  obtain ⟨d, hd, rfl⟩ := List.mem_map.mp hf
  obtain ⟨_, there, _⟩ := bind_ok (forM_ok required d (List.mem_filter.mp hd).1)
  exact requirePartition_ok there

theorem dropTasks_shelf (days : TableDays) (m : ReadModel) (created dropped : List Date)
    (turned : days.tasks = (created.foldl (fun l d => insertDate d l) m.days.tasks).filter
      (!dropped.contains ·)) :
    (dropTasks { m with days } dropped).taskShelf = m.taskShelf.turn created dropped := by
  simp only [taskShelf, dropTasks, Shelf.turn, List.filter_map, List.any_map, turned]
  rfl

theorem dropDags_shelf (days : TableDays) (m : ReadModel) (created dropped : List Date)
    (turned : days.dags = (created.foldl (fun l d => insertDate d l) m.days.dags).filter
      (!dropped.contains ·)) :
    (dropDags { m with days } dropped).dagShelf = m.dagShelf.turn created dropped := by
  simp only [dagShelf, dropDags, Shelf.turn, List.filter_map, List.any_map, turned]
  rfl

theorem maintain_shelves (m : ReadModel) (now : Instant) : m.Shelves (m.maintain now).2 := by
  have tasks : (m.maintain now).2.taskShelf =
      m.taskShelf.turn (m.plan now .tasks).create (m.plan now .tasks).drop :=
    dropTasks_shelf _ m _ _ rfl
  have dags : (m.maintain now).2.dagShelf =
      m.dagShelf.turn (m.plan now .dags).create (m.plan now .dags).drop :=
    dropDags_shelf _ m _ _ rfl
  refine ⟨tasks ▸ .turned _ _, dags ▸ .turned _ _, fun ascends t => ?_, rfl, rfl⟩
  rw [maintain_days]
  exact (ascends t).carriedOut _

theorem attachPartition_shelves (m : ReadModel) (t : Table) (d : Date) :
    m.Shelves (m.attachPartition t d) := by
  have turned (s : Shelf) : s.Change { s with days := insertDate d s.days } := by
    have same : s.turn [d] [] = { s with days := insertDate d s.days } := by simp [Shelf.turn]
    exact same ▸ .turned [d] []
  refine ⟨?_, ?_, fun ascends t' => ?_, rfl, rfl⟩
  · cases t with
    | tasks => exact turned m.taskShelf
    | dags | runs => exact .refl _
  · cases t with
    | dags => exact turned m.dagShelf
    | tasks | runs => exact .refl _
  · change Ascends ((m.days.set t _).get t')
    rw [get_set]
    split
    · exact Ascends.insertDate (ascends t) d
    · exact ascends t'

theorem perform_shelves {op : Operation} {taken : List Pending} (ordered : m.Ordered)
    (done : m.perform op = .ok (taken, m')) : m.Shelves m' := by
  cases performs done with
  | createTasks created => exact createTasks_shelves created
  | createDags created => exact createDags_shelves created
  | insertEvents =>
    exact Passes.shelves ⟨⟨rfl, rfl, rfl⟩, rfl, rfl, fun e he => Or.inl ⟨e, he, rfl⟩, rfl⟩
  | foldTasks folded => exact (foldTasks_passes ordered folded).shelves
  | foldDags folded => exact (foldDags_passes folded).shelves
  | maintain now => exact maintain_shelves m now
  | attachPartition table day => exact attachPartition_shelves m table day

/-! ### Runs of operations -/

variable {partitions days : Nat} {ops : List Operation}

/-- The tables of a read model with the given limits are in order. -/
structure InLine (m : ReadModel) (partitions days : Nat) : Prop where
  ascends : ∀ t, Ascends (m.days.get t)
  tasks : m.taskShelf.Sound
  dags : m.dagShelf.Sound
  retention : m.retentionDays = days
  partitions : m.partitionCount = max partitions 1

theorem Shelves.inLine (shelves : m.Shelves m') (inLine : m.InLine partitions days) :
    m'.InLine partitions days :=
  ⟨shelves.ascends inLine.ascends, shelves.tasks.sound inLine.tasks, shelves.dags.sound inLine.dags,
    shelves.retention.trans inLine.retention, shelves.partitions.trans inLine.partitions⟩

theorem after_inLine (readable : after partitions days ops = .sound m) : m.InLine partitions days := by
  induction ops using List.reverseRecOn generalizing m with
  | nil =>
    cases readable
    refine ⟨fun t => ?_, ⟨?_, ?_, ?_⟩, ⟨?_, ?_, ?_⟩, rfl, rfl⟩
    · cases t <;> exact .nil
    all_goals exact List.forall_mem_nil _
  | append_singleton ops op ih =>
    obtain ⟨m₁, earlier, ⟨rfl, _⟩ | ⟨taken, done, _⟩⟩ := after_concat readable
    · exact ih earlier
    · exact (perform_shelves (after_ordered earlier).1 done).inLine (ih earlier)

/-- At every moment of a run, as long as the read model can be read. -/
def Throughout (partitions days : Nat) (ops : List Operation) (holds : ReadModel → Prop) : Prop :=
  ∀ earlier, earlier <+: ops → ∀ m, after partitions days earlier = .sound m → holds m

/-- Of a shelf that each operation changes at most once all rows are found. -/
theorem after_found (shelf : ReadModel → Shelf)
    (empty : (shelf (.ofLimits partitions days)).Found)
    (changes : ∀ {m m'}, m.Shelves m' → (shelf m).Change (shelf m'))
    (distinct : Throughout partitions days ops fun m => (shelf m).Distinct)
    (readable : after partitions days ops = .sound m) : (shelf m).Found := by
  induction ops using List.reverseRecOn generalizing m with
  | nil =>
    cases readable
    exact empty
  | append_singleton ops op ih =>
    have shorter := List.prefix_append ops [op]
    obtain ⟨m₁, earlier, changed⟩ := after_concat readable
    have found := ih (fun first leads => distinct first (leads.trans shorter)) earlier
    rcases changed with ⟨rfl, _⟩ | ⟨taken, done, _⟩
    · exact found
    · have shelves := perform_shelves (after_ordered earlier).1 done
      exact (changes shelves).found found (distinct ops shorter m₁ earlier)
        (distinct _ List.prefix_rfl m readable)

/-- Rows stand for days that are there, and indexes and moments of ending tell of rows that are there. -/
structure Housed (m : ReadModel) : Prop where
  tasks : ∀ row ∈ m.tasks, row.insertedAt.date ∈ m.days.tasks
  dags : ∀ row ∈ m.dags, row.insertedAt.date ∈ m.days.dags
  taskIndex : ∀ e ∈ m.taskIndex, ∃ row ∈ m.tasks, row.id = e.2 ∧ row.externalId = e.1
  dagIndex : ∀ e ∈ m.dagIndex, ∃ row ∈ m.dags, row.id = e.2 ∧ row.externalId = e.1
  finishedAt : ∀ e ∈ m.finishedAt, ∃ row ∈ m.tasks, row.id = e.1

theorem InLine.housed (inLine : m.InLine partitions days) : m.Housed := by
  refine ⟨fun row member => ?_, fun row member => ?_, fun e he => ?_, fun e he => ?_, fun e he => ?_⟩
  · exact inLine.tasks.housed (face row) (List.mem_map_of_mem member)
  · exact inLine.dags.housed (dagFace row) (List.mem_map_of_mem member)
  · obtain ⟨f, hf, same⟩ := inLine.tasks.indexed e he
    obtain ⟨row, member, rfl⟩ := List.mem_map.mp hf
    exact ⟨row, member, same⟩
  · obtain ⟨f, hf, same⟩ := inLine.dags.indexed e he
    obtain ⟨row, member, rfl⟩ := List.mem_map.mp hf
    exact ⟨row, member, same⟩
  · obtain ⟨f, hf, same⟩ := inLine.tasks.ended e.1 (List.mem_map_of_mem he)
    obtain ⟨row, member, rfl⟩ := List.mem_map.mp hf
    exact ⟨row, member, same⟩

/-- Whatever was done before, a pass of maintenance brings the days of each table in line, reports just
what it has changed and leaves nothing to do. At any time rows stand for days that are there and side
tables tell of rows that are there. Each row is read by its external id if no two rows have had the same
at any time. -/
theorem tables_in_line (readable : after partitions days ops = .sound m) :
    (∀ now, Date.minDay ≤ now.date.day → now.date.day + 1 ≤ Date.maxDay →
      m.Rotates now days (m.maintain now).1 (m.maintain now).2) ∧
    m.Housed ∧
    (Throughout partitions days ops (fun m => (m.tasks.map (·.externalId)).Nodup) →
      ∀ row ∈ m.tasks, m.readTask row.tenantId row.externalId = some row) ∧
    (Throughout partitions days ops (fun m => (m.dags.map (·.externalId)).Nodup) →
      ∀ row ∈ m.dags, m.readDag row.tenantId row.externalId = some row) := by
  have inLine := after_inLine readable
  obtain ⟨ordered, runsOrdered⟩ := after_ordered readable
  refine ⟨fun now begun lasts => ?_, inLine.housed, fun distinct row member => ?_,
    fun distinct row member => ?_⟩
  · exact inLine.retention ▸ maintain_rotates inLine.ascends begun lasts
  · have apart : Throughout partitions days ops fun m => m.taskShelf.Distinct := by
      intro earlier leads m readable
      rw [Shelf.Distinct, taskShelf, List.map_map]
      exact distinct earlier leads m readable
    have found := after_found taskShelf (List.forall_mem_nil _) Shelves.tasks apart readable (face row)
      (List.mem_map_of_mem member)
    have found : findKey? row.externalId m.taskIndex = some row.id := found
    rw [readTask, found, Option.bind_some, task?_of_mem ordered member]
    simp
  · have apart : Throughout partitions days ops fun m => m.dagShelf.Distinct := by
      intro earlier leads m readable
      rw [Shelf.Distinct, dagShelf, List.map_map]
      exact distinct earlier leads m readable
    have found := after_found dagShelf (List.forall_mem_nil _) Shelves.dags apart readable (dagFace row)
      (List.mem_map_of_mem member)
    have found : findKey? row.externalId m.dagIndex = some row.id := found
    rw [readDag, found, Option.bind_some, dag?_of_mem runsOrdered member]
    simp

/-- A moment of a day. -/
def noon (day : Int) : Instant := ⟨day * Instant.nanosPerDay + 43200000000000⟩

/-- Two tasks come on different days, and the first has ended and is dropped with its day. -/
def twoDays : List Operation := [
  .maintain (noon 100),
  .createTasks default [{ (default : Task) with id := 1, externalId := ⟨1⟩, insertedAt := noon 100 }],
  .createDags default [{ (default : Dag) with id := 7, insertedAt := noon 101 }],
  .insertEvents (noon 100) default [{ (default : TaskEvent) with
    taskId := 1, taskInsertedAt := noon 100, eventType := .finished, status := .completed }],
  .foldTasks default 0 10 (noon 100),
  .attachPartition .tasks (noon 97).date,
  .maintain (noon 102),
  .createTasks default [{ (default : Task) with id := 2, externalId := ⟨2⟩, insertedAt := noon 102 }],
  .maintain (noon 99)]

theorem twoDays_distinct : ∀ earlier, earlier <+: twoDays → ∀ m, after 1 1 earlier = .sound m →
    (m.tasks.map (·.externalId)).Nodup ∧ (m.dags.map (·.externalId)).Nodup := by
  have all : ∀ earlier ∈ twoDays.inits, (after 1 1 earlier).get.toOption.all fun m =>
      decide ((m.tasks.map (·.externalId)).Nodup ∧ (m.dags.map (·.externalId)).Nodup) := by
    decide +kernel
  intro earlier leads m readable
  have here := all earlier ((List.mem_inits _ _).mpr leads)
  rw [readable] at here
  exact of_decide_eq_true here

theorem twoDays_in_line : ∃ m, after 1 1 twoDays = .sound m ∧
    m.tasks.map (·.id) = [2] ∧ m.dags.map (·.id) = [7] ∧
    m.days.tasks.map (·.day) = [99, 100, 101, 102, 103] ∧
    m.Rotates (noon 103) 1 (m.maintain (noon 103)).1 (m.maintain (noon 103)).2 ∧ m.Housed ∧
    (∀ row ∈ m.tasks, m.readTask row.tenantId row.externalId = some row) ∧
      ∀ row ∈ m.dags, m.readDag row.tenantId row.externalId = some row := by
  obtain ⟨m, readable, tasks, dags, days⟩ : ∃ m, after 1 1 twoDays = .sound m ∧
      m.tasks.map (·.id) = [2] ∧ m.dags.map (·.id) = [7] ∧
        m.days.tasks.map (·.day) = [99, 100, 101, 102, 103] :=
    ⟨_, rfl, by decide +kernel, by decide +kernel, by decide +kernel⟩
  obtain ⟨rotates, housed, tasksFound, dagsFound⟩ := tables_in_line readable
  have begun : Date.minDay ≤ (noon 103).date.day := by decide
  have lasts : (noon 103).date.day + 1 ≤ Date.maxDay := by decide
  exact ⟨m, readable, tasks, dags, days, rotates (noon 103) begun lasts, housed,
    tasksFound fun earlier leads m readable => (twoDays_distinct earlier leads m readable).1,
    dagsFound fun earlier leads m readable => (twoDays_distinct earlier leads m readable).2⟩

end WorkflowEngine.ReadModel
