import WorkflowEngine.Proofs.ReadModel.Applied

/-!
What a listing of tasks comes to, page by page. The pages are cut from one list of all tasks that the query
asks for, in strict order, since no two tasks have one id. The query may ask for the moment of ending,
which stands beside the rows, and means by it the last event that was applied to the row.
-/

namespace WorkflowEngine

open ReadModel (Reflects)

variable {m : ReadModel} {row a b : TaskRow} {tenant : TenantId} {q : TaskQuery} {before : Instant}
  {history : List Pending}

/-! ### Queries -/

/-- The query asks for the task, given the last event that was applied to its row. -/
structure TaskQuery.Asks (q : TaskQuery) (tenant : TenantId) (row : TaskRow) (last : Option Pending) :
    Prop where
  tenant : row.tenantId = tenant
  created : q.createdAfter ≤ row.insertedAt
  status : q.statuses = [] ∨ row.status ∈ q.statuses
  workflow : q.workflowIds = [] ∨ row.workflowId ∈ q.workflowIds
  worker : ∀ w, q.workerId = some w → row.latestWorkerId = some w
  ended : ∀ before, q.finishedBefore = some before →
    row.status.isTerminal = true ∧ ∃ p, last = some p ∧ p.timestamp ≤ before
  metadata : ∀ e ∈ q.metadata, findKey? e.1 row.additionalMetadata = some e.2

theorem TaskQuery.effectiveStatuses_iff {s : Status} :
    s ∈ q.effectiveStatuses ↔ q.statuses = [] ∨ s ∈ q.statuses := by
  have every : s ∈ Status.all := by cases s <;> decide
  unfold effectiveStatuses
  split
  · rename_i none
    simp [List.isEmpty_iff.mp none, every]
  · rename_i some
    simp [mt List.isEmpty_iff.mpr some]

namespace ReadModel

/-- The moment of ending is that of the last event applied, if that one has ended the task. -/
theorem Reflects.ended_iff (reflects : m.Reflects row.id row history) :
    (m.finished? row.id).any (· ≤ before) = true ↔
      row.status.isTerminal = true ∧ ∃ p, history.getLast? = some p ∧ p.timestamp ≤ before := by
  have mark := reflects.mark
  rw [reflects.finished]
  generalize history.getLast? = last at mark ⊢
  cases last with
  | none => simp
  | some p =>
    have status : row.status = p.status := congrArg Mark.status mark
    rw [Option.bind_some, Pending.ends?, status]
    split <;> rename_i terminal <;> simp [terminal]

theorem selects_iff (reflects : m.Reflects row.id row history) :
    m.selects tenant q row = true ↔ q.Asks tenant row history.getLast? := by
  have worker : (q.workerId.isNone || row.latestWorkerId == q.workerId) = true ↔
      ∀ w, q.workerId = some w → row.latestWorkerId = some w := by
    cases q.workerId <;> simp
  have ended : (q.finishedBefore.all fun before => (m.finished? row.id).any (· ≤ before)) = true ↔
      ∀ before, q.finishedBefore = some before →
        row.status.isTerminal = true ∧ ∃ p, history.getLast? = some p ∧ p.timestamp ≤ before := by
    simp only [← reflects.ended_iff]
    cases q.finishedBefore <;> simp
  have metadata : (q.metadata.all fun e => findKey? e.1 row.additionalMetadata == some e.2) = true ↔
      ∀ e ∈ q.metadata, findKey? e.1 row.additionalMetadata = some e.2 := by
    simp only [List.all_eq_true, beq_iff_eq]
  simp only [selects, Bool.and_eq_true, beq_iff_eq, decide_eq_true_eq, List.contains_iff_mem,
    TaskQuery.effectiveStatuses_iff]
  rw [Bool.or_eq_true, List.isEmpty_iff, List.contains_iff_mem, worker]
  refine Iff.trans (and_congr (and_congr_right fun _ => ended) metadata) ?_
  constructor
  · rintro ⟨⟨⟨⟨⟨⟨tenant, created⟩, status⟩, workflow⟩, worker⟩, ended⟩, metadata⟩
    exact ⟨tenant, created, status, workflow, worker, ended, metadata⟩
  · rintro ⟨tenant, created, status, workflow, worker, ended, metadata⟩
    exact ⟨⟨⟨⟨⟨⟨tenant, created⟩, status⟩, workflow⟩, worker⟩, ended⟩, metadata⟩

/-! ### The order of a listing -/

/-- The row is newer, or of one instant with the other and of a larger id. -/
def Newer (a b : TaskRow) : Prop :=
  b.insertedAt < a.insertedAt ∨ (b.insertedAt = a.insertedAt ∧ b.id < a.id)

/-- Where a row stands among all, the oldest being the least. -/
def recency (r : TaskRow) : Int ×ₗ Int := toLex (r.insertedAt.nanos, r.id)

theorem newer_iff : Newer a b ↔ recency b < recency a := by
  rw [recency, recency, Prod.Lex.toLex_lt_toLex]
  exact or_congr_right (and_congr_left fun _ => ⟨congrArg Instant.nanos, congrArg Instant.mk⟩)

theorem newerFirst_iff : newerFirst a b = true ↔ recency b ≤ recency a := by
  have same : a.insertedAt = b.insertedAt ↔ b.insertedAt.nanos = a.insertedAt.nanos :=
    ⟨fun h => congrArg Instant.nanos h.symm, fun h => congrArg Instant.mk h.symm⟩
  rw [recency, recency, Prod.Lex.toLex_le_toLex]
  simp only [newerFirst, Bool.or_eq_true, Bool.and_eq_true, decide_eq_true_eq, beq_iff_eq, same]
  rfl

/-- All tasks that the query asks for, of which pages are cut. -/
def listed (m : ReadModel) (tenant : TenantId) (q : TaskQuery) : List TaskRow :=
  (m.tasks.filter (m.selects tenant q)).mergeSort newerFirst

theorem mem_listed : row ∈ m.listed tenant q ↔ row ∈ m.tasks ∧ m.selects tenant q row = true := by
  rw [listed, List.mem_mergeSort, List.mem_filter]

theorem listed_newer (ordered : m.Ordered) : (m.listed tenant q).Pairwise Newer := by
  have sorted : (m.listed tenant q).Pairwise (newerFirst · · = true) := by
    refine List.pairwise_mergeSort (fun a b c first second => ?_) (fun a b => ?_) _
    · rw [newerFirst_iff] at first second ⊢
      exact le_trans second first
    · rw [Bool.or_eq_true, newerFirst_iff, newerFirst_iff]
      exact le_total _ _
  have apart : (m.listed tenant q).Pairwise (·.id ≠ ·.id) := by
    refine ((List.mergeSort_perm _ _).pairwise_iff Ne.symm).mpr ?_
    exact (ordered.sublist List.filter_sublist).imp Int.ne_of_lt
  refine sorted.imp₂ (fun a b first other => newer_iff.mpr ?_) apart
  refine lt_of_le_of_ne (newerFirst_iff.mp first) fun same => other ?_
  exact (congrArg Prod.snd (toLex.injective same)).symm

/-! ### Pages -/

/-- So many pages are so much of the list. -/
theorem pages_take {α : Type} (l : List α) (limit n : Nat) :
    (List.range n).flatMap (fun k => (l.drop (k * limit)).take limit) = l.take (n * limit) := by
  induction n with
  | zero => rw [Nat.zero_mul, List.take_zero, List.range_zero, List.flatMap_nil]
  | succ n ih =>
    rw [List.range_succ, List.flatMap_append, ih, List.flatMap_singleton, Nat.succ_mul, List.take_add]

/-! ### Counts -/

/-- What is counted of a status is what is listed with that status. -/
theorem countStatuses_eq (createdAfter : Instant) (workflowIds : List WorkflowId) :
    m.countStatuses tenant createdAfter workflowIds = Status.all.map fun s =>
      (s, (m.listTasks tenant { createdAfter, statuses := [s], workflowIds }).2) := by
  refine List.map_congr_left fun s _ => congrArg (s, ·) ?_
  rw [listTasks, List.length_mergeSort, List.filter_filter]
  refine congrArg List.length (List.filter_congr fun row _ => ?_)
  have chosen : m.selects tenant { createdAfter, statuses := [s], workflowIds } row =
      (row.tenantId == tenant && decide (createdAfter ≤ row.insertedAt) && row.status == s &&
        (workflowIds.isEmpty || workflowIds.contains row.workflowId)) := by
    simp [selects, TaskQuery.effectiveStatuses, beq_eq_decide]
  rw [chosen]
  ac_rfl

/-! ### Listings -/

variable {partitions days : Nat} {ops : List Operation}

/-- In any state that a run leads to a listing is exact. -/
theorem listing_exact (readable : after partitions days ops = .sound m) (tenant : TenantId)
    (q : TaskQuery) :
    (∃ all : List TaskRow,
      (∀ row, row ∈ all ↔ row ∈ m.tasks ∧
        q.Asks tenant row (appliedTo row.id partitions days ops).getLast?) ∧
      all.Pairwise Newer ∧
      ∀ limit, 1 ≤ limit →
        (∀ k, (m.listTasks tenant { q with limit, offset := k * limit }).2 = all.length) ∧
        ∀ n, all.length ≤ n * limit →
          (List.range n).flatMap (fun k =>
            (m.listTasks tenant { q with limit, offset := k * limit }).1) = all) ∧
    ∀ createdAfter workflowIds, m.countStatuses tenant createdAfter workflowIds =
      Status.all.map fun s =>
        (s, (m.listTasks tenant { createdAfter, statuses := [s], workflowIds }).2) := by
  have ordered := (after_ordered readable).1
  refine ⟨⟨m.listed tenant q, fun row => ?_, listed_newer ordered, fun limit _ => ⟨fun k => rfl, ?_⟩⟩,
    countStatuses_eq⟩
  · refine mem_listed.trans (and_congr_right fun member => ?_)
    exact selects_iff ((after_reflects readable).1 row (task?_of_mem ordered member))
  · intro n enough
    exact (pages_take _ limit n).trans (List.take_of_length_le enough)

/-- Four tasks, of which the first two end, the second one on another attempt than it had started with. The
last one comes under the number of a task that had ended on a day that was dropped. -/
def shift : List Operation :=
  let told (task : TaskId) (retryCount : Int) (type : EventType) (moment : Int) (worker : Option Nat) :=
    { (default : TaskEvent) with
      taskId := task, taskInsertedAt := noon 100, retryCount, eventType := type, status := type.status,
      timestamp := ⟨moment⟩, workerId := worker.map fun w => ⟨w⟩ }
  let task (id : TaskId) (day : Int) :=
    { (default : Task) with id, externalId := ⟨id.toNat⟩, insertedAt := noon day }
  [.attachPartition .tasks (noon 90).date, .attachPartition .runs (noon 90).date,
    .createTasks default [task 4 90],
    .insertEvents (noon 100) default [told 4 0 .finished 1 none],
    .foldTasks default 0 10 (noon 100),
    .maintain (noon 100),
    .createTasks default [task 1 100, task 2 100, task 3 101, task 4 100],
    .insertEvents (noon 100) default [told 1 0 .finished 5 none, told 2 0 .started 2 (some 8)],
    .foldTasks default 0 10 (noon 100),
    .insertEvents (noon 100) default [told 2 1 .finished 9 none, told 3 0 .started 4 (some 8)],
    .foldTasks default 0 10 (noon 100)]

def endedBy (moment : Int) : TaskQuery := { createdAfter := .epoch, finishedBefore := some ⟨moment⟩ }

/-- By the moment 9 the first two have ended, by the moment 8 only one of them; what was applied to a row
that was dropped counts no more. -/
theorem shift_listed : ∃ m all, after 1 7 shift = .sound m ∧
    m.tasks.map (fun row => (row.id, row.status)) =
      [(1, .completed), (2, .completed), (3, .running), (4, .queued)] ∧
    (appliedTo 2 1 7 shift).map (·.timestamp) = [⟨2⟩, ⟨9⟩] ∧ appliedTo 4 1 7 shift = [] ∧
    (∀ row, row ∈ all ↔ row ∈ m.tasks ∧
      (endedBy 9).Asks default row (appliedTo row.id 1 7 shift).getLast?) ∧
    all.Pairwise Newer ∧ all.length = 2 ∧
    (List.range 2).flatMap (fun k =>
      (m.listTasks default { endedBy 9 with limit := 1, offset := k * 1 }).1) = all ∧
    (m.listTasks default (endedBy 8)).2 = 1 ∧
    m.countStatuses default .epoch [] = Status.all.map fun s =>
      (s, (m.listTasks default { createdAfter := .epoch, statuses := [s] }).2) := by
  obtain ⟨m, readable, rows, second, fourth, ended, earlier⟩ : ∃ m, after 1 7 shift = .sound m ∧
      m.tasks.map (fun row => (row.id, row.status)) =
        [(1, .completed), (2, .completed), (3, .running), (4, .queued)] ∧
      (appliedTo 2 1 7 shift).map (·.timestamp) = [⟨2⟩, ⟨9⟩] ∧ appliedTo 4 1 7 shift = [] ∧
      (m.tasks.filter (m.selects default (endedBy 9))).length = 2 ∧
      (m.tasks.filter (m.selects default (endedBy 8))).length = 1 :=
    ⟨_, rfl, by decide +kernel, by decide +kernel, by decide +kernel, by decide +kernel,
      by decide +kernel⟩
  obtain ⟨⟨all, asked, newer, pages⟩, counts⟩ := listing_exact readable default (endedBy 9)
  obtain ⟨total, whole⟩ := pages 1 (Nat.le_refl 1)
  have two : all.length = 2 := (total 0).symm.trans ((List.length_mergeSort _).trans ended)
  exact ⟨m, all, readable, rows, second, fourth, asked, newer, two,
    whole 2 (Nat.le_of_eq two), (List.length_mergeSort _).trans earlier, counts .epoch []⟩

end ReadModel

end WorkflowEngine
