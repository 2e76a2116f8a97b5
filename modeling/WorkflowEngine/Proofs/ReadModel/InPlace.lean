import WorkflowEngine.Proofs.ReadModel.Operation
import WorkflowEngine.Proofs.Store.InPlace

/-!
The operations of the read model as programs that change it in place. Rows are added only when every
day they need was found. A pass can fail only by a delay beyond the calendar, with a panic, when it has
taken what is due already.
-/

namespace WorkflowEngine

open Fallible InPlace

theorem Pending.requeued_panics {p : Pending} {now : Instant} {x : Fault}
    (failed : p.requeued now = .error x) : x.isPanic = true := by
  unfold requeued at failed
  split at failed
  · cases failed
  · rcases bind_error failed with late | ⟨_, _, done⟩
    · exact Task.deadline_panics late
    · cases done

namespace ReadModel

variable {m : ReadModel} {p : Pending} {tenant : TenantId} {share : Nat} {now : Instant} {x : Fault}

/-! ### Passes -/

/-- Puts an event back if its task has no row. -/
def putBackOne (m : ReadModel) (share : Nat) (now : Instant) (p : Pending) : Except Fault ReadModel :=
  if (m.task? p.taskId).isNone then do
    let again ← p.requeued now
    return { m with pendingEvents := m.pendingEvents ++ again.toList.map (share, ·) }
  else .ok m

theorem putBackOne_panics (failed : m.putBackOne share now p = .error x) : x.isPanic = true := by
  unfold putBackOne at failed
  split at failed
  · rcases bind_error failed with late | ⟨_, _, done⟩
    · exact Pending.requeued_panics late
    · cases done
  · cases failed

theorem putBack_each (m : ReadModel) (share : Nat) (now : Instant) (batch : List Pending) :
    m.putBack share now batch = batch.foldlM (fun m p => m.putBackOne share now p) m := by
  induction batch generalizing m with
  | nil =>
    change Except.ok { m with pendingEvents := m.pendingEvents ++ [] } = .ok m
    rw [List.append_nil]
  | cons p rest ih =>
    rw [List.foldlM_cons, putBackOne, putBack, List.filter_cons]
    cases missing : (m.task? p.taskId).isNone with
    | false => exact ih m
    | true =>
      rw [if_pos rfl, if_pos rfl, List.filterMapM_cons]
      cases p.requeued now with
      | error x => rfl
      | ok again =>
        -- What is put back later does not depend on it, as rows stay as they are.
        change _ = rest.foldlM (fun m p => m.putBackOne share now p)
          { m with pendingEvents := m.pendingEvents ++ again.toList.map (share, ·) }
        rw [← ih]
        cases again with
        | none =>
          change m.putBack share now rest =
            putBack { m with pendingEvents := m.pendingEvents ++ [] } share now rest
          rw [List.append_nil]
        | some q =>
          let later := (rest.filter fun p => (m.task? p.taskId).isNone).filterMapM (·.requeued now)
          change (List.cons q <$> later >>= fun again =>
              .ok { m with pendingEvents := m.pendingEvents ++ again.map (share, ·) }) =
            later >>= fun again =>
              .ok { m with pendingEvents := (m.pendingEvents ++ [(share, q)]) ++ again.map (share, ·) }
          cases later with
          | error x => rfl
          | ok again =>
            change Except.ok { m with pendingEvents := m.pendingEvents ++ (share, q) :: _ } = .ok _
            rw [List.append_cons]

theorem foldDag_panics {p : PendingDag} (failed : m.foldDag share now p = .error x) :
    x.isPanic = true := by
  unfold foldDag at failed
  split at failed
  · cases failed
  · split at failed
    · rcases bind_error failed with late | ⟨_, _, done⟩
      · exact Task.deadline_panics late
      · cases done
    · cases failed

/-! ### Operations -/

def createTasksInPlace (tenant : TenantId) (tasks : List Task) : InPlace ReadModel (List Pending) := do
  check fun m => tasks.forM fun t => do
    m.requirePartition .tasks t.insertedAt
    m.requirePartition .runs t.insertedAt
  (tasks.filter (·.tenantId == tenant)).forM fun t => modify (·.addTask t)
  return []

def createDagsInPlace (tenant : TenantId) (dags : List Dag) : InPlace ReadModel (List Pending) := do
  check fun m => dags.forM fun d => do
    m.requirePartition .dags d.insertedAt
    m.requirePartition .runs d.insertedAt
  (dags.filter (·.tenantId == tenant)).forM fun d => modify (·.addDag d)
  return []

/-- Events without a row are put back one by one, and the runs that changed are queued. -/
def requeueInPlace (tenant : TenantId) (share : Nat) (now : Instant) (batch : List Pending)
    (changed : List DagId) : InPlace ReadModel Unit := do
  batch.forM fun p => writing id (·.putBackOne share now p)
  changed.forM fun dag => modify (·.queueDag tenant now dag)

/-- What is due is taken out and applied before anything is put back. -/
def foldTasksInPlace (tenant : TenantId) (share limit : Nat) (now : Instant) :
    InPlace ReadModel (List Pending) := do
  let (taken, kept) ← read fun m => takeDue (eventDue tenant share now) limit m.pendingEvents
  modify ({ · with pendingEvents := kept })
  let (changed, m) ← read (·.applyAll (foldPending (taken.map (·.2))))
  modify fun _ => m
  requeueInPlace tenant share now (taken.map (·.2)) changed
  return taken.map (·.2)

def foldDagsInPlace (tenant : TenantId) (share limit : Nat) (now : Instant) :
    InPlace ReadModel (List Pending) := do
  let (taken, kept) ← read fun m => takeDue (dagDue tenant share now) limit m.pendingDags
  modify ({ · with pendingDags := kept })
  (firstUpdates [] (taken.map (·.2))).forM fun p => writing id (·.foldDag share now p)
  return []

/-- What an operation does to the read model in place, with the events that a pass takes. -/
def Operation.inPlace : Operation → InPlace ReadModel (List Pending)
  | .createTasks tenant tasks => createTasksInPlace tenant tasks
  | .createDags tenant dags => createDagsInPlace tenant dags
  | .insertEvents now tenant events => do
    modify (·.insertEvents now tenant events)
    return []
  | .foldTasks tenant share limit now => foldTasksInPlace tenant share limit now
  | .foldDags tenant share limit now => foldDagsInPlace tenant share limit now
  | .maintain now => do
    modify fun m => (m.maintain now).2
    return []
  | .attachPartition table day => do
    modify (·.attachPartition table day)
    return []

/-- Writes one after the other are all the writes. -/
theorem modifies_steady {α : Type} (f : ReadModel → α → ReadModel) (l : List α) :
    Steady (l.forM fun a => modify (f · a)) fun m => .ok (l.foldl f m) :=
  (Steady.forM (fun a => Steady.modify (f · a)) l).congr fun _ => List.foldlM_pure

theorem createTasks_atomic (tenant : TenantId) (tasks : List Task) :
    Atomic (createTasksInPlace tenant tasks) fun m => do return ([], ← m.createTasks tenant tasks) := by
  refine (Atomic.check fun _ => (modifies_steady addTask _).atomic []).congr fun m => ?_
  simp only [createTasks, bind_assoc, pure_bind]
  rfl

theorem createDags_atomic (tenant : TenantId) (dags : List Dag) :
    Atomic (createDagsInPlace tenant dags) fun m => do return ([], ← m.createDags tenant dags) := by
  refine (Atomic.check fun _ => (modifies_steady addDag _).atomic []).congr fun m => ?_
  simp only [createDags, bind_assoc, pure_bind]
  rfl

theorem requeue_steady (tenant : TenantId) (share : Nat) (now : Instant) (batch : List Pending)
    (changed : List DagId) : Steady (requeueInPlace tenant share now batch changed) fun m => do
      return changed.foldl (fun m dag => m.queueDag tenant now dag) (← m.putBack share now batch) := by
  intro m
  have each (p : Pending) :
      Steady (writing id fun m => putBackOne m share now p) fun m => m.putBackOne share now p :=
    Steady.writing id fun _ _ => putBackOne_panics
  have back := (Steady.forM each batch).congr fun m => (putBack_each m share now batch).symm
  exact (back m).bind (modifies_steady (fun m dag => m.queueDag tenant now dag) changed)

theorem foldTasks_atomic (tenant : TenantId) (share limit : Nat) (now : Instant) :
    Atomic (foldTasksInPlace tenant share limit now) (·.perform (.foldTasks tenant share limit now)) := by
  intro m
  have requeued (batch : List Pending) (changed : List DagId) (m₁ : ReadModel) :=
    (requeue_steady tenant share now batch changed).keeps batch m₁ m
  simp only [bind_assoc, pure_bind] at requeued
  simp only [perform, foldTasks, bind_assoc, pure_bind]
  rw [foldTasksInPlace, run_read, run_modify, run_read, run_modify]
  exact requeued _ _ _

theorem foldDags_atomic (tenant : TenantId) (share limit : Nat) (now : Instant) :
    Atomic (foldDagsInPlace tenant share limit now) (·.perform (.foldDags tenant share limit now)) := by
  intro m
  have each (p : PendingDag) :
      Steady (writing id fun m => foldDag m share now p) fun m => m.foldDag share now p :=
    Steady.writing id fun _ _ => foldDag_panics
  simp only [perform, foldDags, bind_assoc, pure_bind]
  rw [foldDagsInPlace, run_read, run_modify]
  exact (Steady.forM each _).keeps _ _ m

/-- Every operation does in place what it is said to do, and fails without a trace unless it panics. -/
theorem Operation.inPlace_atomic (op : Operation) : Atomic op.inPlace (·.perform op) := by
  cases op with
  | createTasks tenant tasks => exact createTasks_atomic tenant tasks
  | createDags tenant dags => exact createDags_atomic tenant dags
  | foldTasks tenant share limit now => exact foldTasks_atomic tenant share limit now
  | foldDags tenant share limit now => exact foldDags_atomic tenant share limit now
  | insertEvents | maintain | attachPartition => exact fun _ => rfl

end ReadModel

end WorkflowEngine
