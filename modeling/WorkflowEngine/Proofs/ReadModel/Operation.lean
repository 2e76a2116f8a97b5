import Mathlib.Data.List.Nodup
import WorkflowEngine.Proofs.Ascending
import WorkflowEngine.Proofs.ReadModel.Coherent

/-!
What each operation of the read model leaves alone. Rows come as rows that no event was applied to,
and go as a whole; what a row shows is changed by passes only. The log only ever grows, and only what
it has waits to be folded.
-/

namespace WorkflowEngine.ReadModel

open Fallible

variable {m m' : ReadModel} {row row' : TaskRow} {i : TaskId} {tenant : TenantId} {share limit n : Nat}
  {now : Instant}

/-! ### Rows in their order -/

/-- The rows of tasks are in the order of their ids. -/
def Ordered (m : ReadModel) : Prop := m.tasks.Pairwise fun a b => a.id < b.id

theorem task?_of_mem (ordered : m.Ordered) (member : row ∈ m.tasks) : m.task? row.id = some row := by
  have nodup : (m.tasks.map (·.id)).Nodup :=
    List.pairwise_map.mpr (ordered.imp fun less => Int.ne_of_lt less)
  cases found : m.task? row.id with
  | none =>
    have absent := List.find?_eq_none.mp found row member
    simp at absent
  | some other =>
    have known := List.mem_of_find?_eq_some found
    rw [List.inj_on_of_nodup_map nodup known member (task?_id found)]

/-- A row that is there when some have been dropped was there before. -/
theorem task?_sublist (ordered : m.Ordered) (fewer : m'.tasks.Sublist m.tasks)
    (found : m'.task? i = some row) : m.task? i = some row := by
  rw [← task?_id found]
  exact task?_of_mem ordered (fewer.subset (List.mem_of_find?_eq_some found))

theorem addTask_ordered (ordered : m.Ordered) (t : Task) : (m.addTask t).Ordered := by
  unfold addTask
  split
  · exact ordered
  · exact Ascending.put_key_pairwise ordered

/-! ### Rows that are added -/

theorem createTasks_rows {m m' : ReadModel} {ts : List Task} (h : m.createTasks tenant ts = .ok m') :
    m' = (ts.filter (·.tenantId == tenant)).foldl addTask m := by
  obtain ⟨_, _, h⟩ := Fallible.bind_ok h
  cases h
  rfl

theorem createDags_rows {m m' : ReadModel} {ds : List Dag} (h : m.createDags tenant ds = .ok m') :
    m' = (ds.filter (·.tenantId == tenant)).foldl addDag m := by
  obtain ⟨_, _, h⟩ := Fallible.bind_ok h
  cases h
  rfl

theorem createDags_same {m m' : ReadModel} {ds : List Dag} (h : m.createDags tenant ds = .ok m') :
    m'.tasks = m.tasks ∧ m'.events = m.events ∧ m'.pendingEvents = m.pendingEvents := by
  rw [createDags_rows h]
  have kept : ∀ (ds : List Dag) (m : ReadModel), (ds.foldl addDag m).tasks = m.tasks ∧
      (ds.foldl addDag m).events = m.events ∧ (ds.foldl addDag m).pendingEvents = m.pendingEvents := by
    intro ds
    induction ds with
    | nil => exact fun m => ⟨rfl, rfl, rfl⟩
    | cons d rest ih =>
      intro m
      obtain ⟨tasks, log, pending⟩ := ih (m.addDag d)
      rw [List.foldl_cons, tasks, log, pending]
      unfold addDag
      split <;> exact ⟨rfl, rfl, rfl⟩
  exact kept _ m

theorem addTasks_rows {ts : List Task} (found : (ts.foldl addTask m).task? i = some row) :
    m.task? i = some row ∨ (m.task? i = none ∧ row.mark = unmarked) := by
  induction ts generalizing m with
  | nil => exact Or.inl found
  | cons t rest ih =>
    rcases ih found with before | ⟨missing, fresh⟩
    · rw [addTask_task?] at before
      split at before
      · rename_i new
        cases before
        exact Or.inr ⟨new.1 ▸ new.2, rfl⟩
      · exact Or.inl before
    · refine Or.inr ⟨?_, fresh⟩
      rw [addTask_task?] at missing
      split at missing
      · cases missing
      · exact missing

theorem addTasks_same (m : ReadModel) (ts : List Task) :
    (ts.foldl addTask m).events = m.events ∧ (ts.foldl addTask m).pendingEvents = m.pendingEvents := by
  induction ts generalizing m with
  | nil => exact ⟨rfl, rfl⟩
  | cons t rest ih =>
    obtain ⟨log, pending⟩ := ih (m.addTask t)
    exact ⟨log.trans (addTask_same m t).1, pending.trans (addTask_same m t).2⟩

/-! ### Passes -/

theorem foldDag_same {p : PendingDag} (done : m.foldDag share now p = .ok m') :
    m'.tasks = m.tasks ∧ m'.events = m.events ∧ m'.pendingEvents = m.pendingEvents := by
  unfold foldDag at done
  split at done
  · cases done
    unfold refreshDag
    simp only
    split <;> exact ⟨rfl, rfl, rfl⟩
  · split at done
    · obtain ⟨_, _, done⟩ := bind_ok done
      cases done
      exact ⟨rfl, rfl, rfl⟩
    · cases done
      exact ⟨rfl, rfl, rfl⟩

theorem foldDags_same (done : m.foldDags tenant share limit now = .ok (n, m')) :
    m'.tasks = m.tasks ∧ m'.events = m.events ∧ m'.pendingEvents = m.pendingEvents := by
  obtain ⟨m₁, folded, done⟩ := bind_ok done
  cases done
  refine foldlM_ok (P := fun m' => m'.tasks = m.tasks ∧ m'.events = m.events ∧
    m'.pendingEvents = m.pendingEvents) folded ⟨rfl, rfl, rfl⟩ ?_
  rintro m₁ p - m₂ ⟨tasks, log, pending⟩ step
  obtain ⟨tasks', log', pending'⟩ := foldDag_same step
  exact ⟨tasks'.trans tasks, log'.trans log, pending'.trans pending⟩

theorem applyAll_ids {fs : List Folded} : (m.applyAll fs).2.tasks.map (·.id) = m.tasks.map (·.id) := by
  induction fs generalizing m with
  | nil => rfl
  | cons f rest ih =>
    refine (ih (m := (m.applyFolded f).2)).trans ?_
    unfold applyFolded
    split
    · rfl
    · simp only [List.map_map]
      refine List.map_congr_left fun r _ => ?_
      rw [Function.comp_apply]
      split
      · rename_i same
        exact (eq_of_beq same).symm
      · rfl

theorem foldTasks_ids (done : m.foldTasks tenant share limit now = .ok (n, m')) :
    m'.tasks.map (·.id) = m.tasks.map (·.id) := by
  obtain ⟨m₁, m₂, applied, back, tasks, _⟩ := foldTasks_ok done
  rw [tasks, (putBack_ok back).1, applied, applyAll_ids]

/-! ### Rows that are dropped -/

theorem maintainTable_same (m : ReadModel) (now : Instant) (t : Table) :
    (m.maintainTable now t).2.tasks.Sublist m.tasks ∧ (m.maintainTable now t).2.events = m.events ∧
      (m.maintainTable now t).2.pendingEvents = m.pendingEvents := by
  cases t with
  | tasks => exact ⟨List.filter_sublist, rfl, rfl⟩
  | dags | runs => exact ⟨List.Sublist.refl _, rfl, rfl⟩

theorem maintain_same (m : ReadModel) (now : Instant) :
    (m.maintain now).2.tasks.Sublist m.tasks ∧ (m.maintain now).2.events = m.events ∧
      (m.maintain now).2.pendingEvents = m.pendingEvents := by
  obtain ⟨rows₁, log₁, pending₁⟩ := maintainTable_same m now .tasks
  obtain ⟨rows₂, log₂, pending₂⟩ := maintainTable_same (m.maintainTable now .tasks).2 now .dags
  obtain ⟨rows₃, log₃, pending₃⟩ :=
    maintainTable_same ((m.maintainTable now .tasks).2.maintainTable now .dags).2 now .runs
  exact ⟨(rows₃.trans rows₂).trans rows₁, (log₃.trans log₂).trans log₁,
    (pending₃.trans pending₂).trans pending₁⟩

/-! ### Operations -/

/-- What the read model can be told to do. -/
inductive Operation where
  | createTasks (tenant : TenantId) (tasks : List Task)
  | createDags (tenant : TenantId) (dags : List Dag)
  | insertEvents (now : Instant) (tenant : TenantId) (events : List TaskEvent)
  | foldTasks (tenant : TenantId) (share limit : Nat) (now : Instant)
  | foldDags (tenant : TenantId) (share limit : Nat) (now : Instant)
  | maintain (now : Instant)
  | attachPartition (table : Table) (day : Date)

/-- Carries out an operation, and tells which events a pass took. -/
def perform (m : ReadModel) : Operation → Except Fault (List Pending × ReadModel)
  | .createTasks tenant tasks => do return ([], ← m.createTasks tenant tasks)
  | .createDags tenant dags => do return ([], ← m.createDags tenant dags)
  | .insertEvents now tenant events => .ok ([], m.insertEvents now tenant events)
  | .foldTasks tenant share limit now => do
    let (_, m') ← m.foldTasks tenant share limit now
    return ((takeDue (eventDue tenant share now) limit m.pendingEvents).1.map (·.2), m')
  | .foldDags tenant share limit now => do
    let (_, m') ← m.foldDags tenant share limit now
    return ([], m')
  | .maintain now => .ok ([], (m.maintain now).2)
  | .attachPartition table day => .ok ([], m.attachPartition table day)

variable {op : Operation} {taken : List Pending}

/-- An operation that goes well, with the events that it takes. -/
inductive Performs (m : ReadModel) : Operation → List Pending → ReadModel → Prop where
  | createTasks {tenant : TenantId} {ts : List Task} {m' : ReadModel}
      (created : m.createTasks tenant ts = .ok m') : Performs m (.createTasks tenant ts) [] m'
  | createDags {tenant : TenantId} {ds : List Dag} {m' : ReadModel}
      (created : m.createDags tenant ds = .ok m') : Performs m (.createDags tenant ds) [] m'
  | insertEvents (now : Instant) (tenant : TenantId) (events : List TaskEvent) :
      Performs m (.insertEvents now tenant events) [] (m.insertEvents now tenant events)
  | foldTasks {tenant : TenantId} {share limit n : Nat} {now : Instant} {m' : ReadModel}
      (folded : m.foldTasks tenant share limit now = .ok (n, m')) :
      Performs m (.foldTasks tenant share limit now)
        ((takeDue (eventDue tenant share now) limit m.pendingEvents).1.map (·.2)) m'
  | foldDags {tenant : TenantId} {share limit n : Nat} {now : Instant} {m' : ReadModel}
      (folded : m.foldDags tenant share limit now = .ok (n, m')) :
      Performs m (.foldDags tenant share limit now) [] m'
  | maintain (now : Instant) : Performs m (.maintain now) [] (m.maintain now).2
  | attachPartition (table : Table) (day : Date) :
      Performs m (.attachPartition table day) [] (m.attachPartition table day)

theorem performs (done : m.perform op = .ok (taken, m')) : m.Performs op taken m' := by
  cases op with
  | createTasks | createDags =>
    obtain ⟨_, created, done⟩ := bind_ok done
    cases done
    constructor
    exact created
  | foldTasks | foldDags =>
    obtain ⟨⟨n, _⟩, folded, done⟩ := bind_ok done
    cases done
    constructor
    exact folded
  | insertEvents | maintain | attachPartition =>
    cases done
    constructor

/-- What an operation may do to rows, log and what waits, with the events that it takes. -/
inductive Written (m : ReadModel) : List Pending → ReadModel → Prop where
  | added (ts : List Task) : Written m [] (ts.foldl addTask m)
  | dropped {m' : ReadModel} (fewer : m'.tasks.Sublist m.tasks) (log : m'.events = m.events)
      (pending : m'.pendingEvents = m.pendingEvents) : Written m [] m'
  | logged (now : Instant) (tenant : TenantId) (events : List TaskEvent) :
      Written m [] (m.insertEvents now tenant events)
  | passed {tenant : TenantId} {share limit n : Nat} {now : Instant} {m' : ReadModel}
      (done : m.foldTasks tenant share limit now = .ok (n, m')) :
      Written m ((takeDue (eventDue tenant share now) limit m.pendingEvents).1.map (·.2)) m'

theorem perform_written (done : m.perform op = .ok (taken, m')) : m.Written taken m' := by
  cases performs done with
  | createTasks created =>
    rw [createTasks_rows created]
    exact .added _
  | createDags created =>
    obtain ⟨tasks, log, pending⟩ := createDags_same created
    exact .dropped (tasks ▸ List.Sublist.refl _) log pending
  | insertEvents now tenant events => exact .logged now tenant events
  | foldTasks folded => exact .passed folded
  | foldDags folded =>
    obtain ⟨tasks, log, pending⟩ := foldDags_same folded
    exact .dropped (tasks ▸ List.Sublist.refl _) log pending
  | maintain now =>
    obtain ⟨fewer, log, pending⟩ := maintain_same m now
    exact .dropped fewer log pending
  | attachPartition => exact .dropped (List.Sublist.refl _) rfl rfl

theorem Written.log (written : m.Written taken m') : m.events ⊆ m'.events := by
  cases written with
  | added ts => exact fun e he => (addTasks_same m ts).1 ▸ he
  | dropped _ log => exact fun e he => log ▸ he
  | logged => exact List.subset_append_left _ _
  | passed done => exact fun e he => (foldTasks_same done).1 ▸ he

theorem Written.ordered (written : m.Written taken m') (ordered : m.Ordered) : m'.Ordered := by
  cases written with
  | added ts => exact List.foldlRecOn _ _ ordered fun _ ordered t _ => addTask_ordered ordered t
  | dropped fewer => exact ordered.sublist fewer
  | logged => exact ordered
  | passed done =>
    rw [Ordered, ← List.pairwise_map (R := (· < ·))] at ordered ⊢
    rwa [foldTasks_ids done]

/-- Rows are in order, and what waits is in the log. -/
structure Recorded (m : ReadModel) : Prop where
  ordered : m.Ordered
  waiting : ∀ q ∈ m.pendingEvents, ∃ e ∈ m.events, SameEvent (.ofEvent e .epoch) q.2

theorem Written.recorded (written : m.Written taken m') (recorded : m.Recorded) : m'.Recorded := by
  refine ⟨written.ordered recorded.ordered, ?_⟩
  cases written with
  | added ts =>
    obtain ⟨log, pending⟩ := addTasks_same m ts
    rw [log, pending]
    exact recorded.waiting
  | dropped _ log pending =>
    rw [log, pending]
    exact recorded.waiting
  | logged now tenant events =>
    intro q hq
    rcases List.mem_append.mp hq with old | new
    · obtain ⟨e, he, same⟩ := recorded.waiting q old
      exact ⟨e, List.mem_append_left _ he, same⟩
    · obtain ⟨e, he, rfl⟩ := List.mem_map.mp new
      exact ⟨e, List.mem_append_right _ he, rfl, rfl, rfl⟩
  | passed done =>
    obtain ⟨log, _, pending⟩ := foldTasks_same done
    intro q hq
    obtain ⟨p, hp, same⟩ := pending q hq
    obtain ⟨e, he, same'⟩ := recorded.waiting p hp
    rw [log]
    exact ⟨e, he, same'.trans same⟩

/-- Only events of the log are taken. -/
theorem Written.taken_logged (written : m.Written taken m') (recorded : m.Recorded) :
    ∀ p ∈ taken, ∃ e ∈ m.events, SameEvent (.ofEvent e .epoch) p := by
  intro p member
  cases written with
  | added | dropped | logged => cases member
  | passed done =>
    obtain ⟨q, hq, rfl⟩ := List.mem_map.mp member
    exact recorded.waiting q (mem_takeDue.mpr (Or.inl hq))

/-- Of the events that were taken for a row, one with the highest mark replaces what the row shows if
it may. -/
def Turns (row row' : TaskRow) (taken : List Pending) : Prop :=
  (taken = [] ∧ row'.mark = row.mark) ∨
    ∃ top ∈ taken, (∀ p ∈ taken, p.mark ≤ top.mark) ∧
      row'.mark = if top.mark.replaces row.mark then top.mark else row.mark

/-- A row after an operation is new, or it is the one before as the events that were taken turn it. -/
theorem Written.turns (written : m.Written taken m') (recorded : m.Recorded)
    (dated : ∀ row, m.task? i = some row → ∀ p ∈ m.waiting i, p.taskInsertedAt = row.insertedAt)
    (found : m'.task? i = some row') :
    (m.task? i = none ∧ row'.mark = unmarked ∧ taken = []) ∨
      ∃ row, m.task? i = some row ∧ SameRow row row' ∧ Turns row row' (taken.filter (·.taskId == i)) := by
  have kept : m.task? i = some row' → ∃ row, m.task? i = some row ∧ SameRow row row' ∧
      Turns row row' (([] : List Pending).filter (·.taskId == i)) :=
    fun before => ⟨row', before, .refl row', Or.inl ⟨rfl, rfl⟩⟩
  cases written with
  | added ts =>
    rcases addTasks_rows found with before | ⟨missing, fresh⟩
    · exact Or.inr (kept before)
    · exact Or.inl ⟨missing, fresh, rfl⟩
  | dropped fewer => exact Or.inr (kept (task?_sublist recorded.ordered fewer found))
  | logged => exact Or.inr (kept found)
  | passed done =>
    cases before : m.task? i with
    | none =>
      rw [(foldTasks_same done).2.1 i before] at found
      cases found
    | some row =>
      obtain ⟨row₁, passed⟩ := foldTasks_passed before (dated row before) done
      cases passed.found.symm.trans found
      exact Or.inr ⟨row, rfl, passed.same, passed.mark⟩

end WorkflowEngine.ReadModel
