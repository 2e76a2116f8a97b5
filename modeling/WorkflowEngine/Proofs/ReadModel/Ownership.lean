import WorkflowEngine.Proofs.ReadModel.Status

/-!
Whose events change a row. A row changes in passes only, by events of the caller under the number of its
task. The tenant and the moment of creation that such an event names play no part in this, so they are
those of the row only as long as no number is used twice.
-/

namespace WorkflowEngine

open Fallible

/-- The event was told of the row: it names its tenant, its number and when it was created. -/
def Pending.isOf (p : Pending) (row : TaskRow) : Bool :=
  p.tenantId == row.tenantId && p.taskId == row.id && p.taskInsertedAt == row.insertedAt

/-! ### Candidates -/

namespace Folded

variable {a b f : Folded} {batch more : List Pending} {p : Pending}

/-- Everything that the candidate says was said by events of its task in the batch. -/
structure Backed (batch : List Pending) (f : Folded) : Prop where
  event : ∃ p ∈ batch, p.place = f.place ∧ p.mark = f.mark ∧ p.timestamp = f.timestamp
  worker : ∀ w, f.workerId = some w → ∃ p ∈ batch, p.place = f.place ∧ p.workerId = some w

theorem task_of_place (same : p.place = f.place) : p.taskId = f.taskId :=
  congrArg Prod.fst (toLex.injective same)

theorem Backed.mono (backed : Backed batch f) (fewer : batch ⊆ more) : Backed more f := by
  obtain ⟨⟨p, hp, said⟩, worker⟩ := backed
  refine ⟨⟨p, fewer hp, said⟩, fun w named => ?_⟩
  obtain ⟨q, hq, said⟩ := worker w named
  exact ⟨q, fewer hq, said⟩

theorem backed_ofPending (listed : p ∈ batch) : Backed batch (.ofPending p) :=
  ⟨⟨p, listed, rfl, rfl, rfl⟩, fun _ named => ⟨p, listed, rfl, named⟩⟩

theorem Backed.merge (first : Backed batch a) (second : Backed batch b) (same : a.place = b.place) :
    Backed batch (merge a b) := by
  -- The winner may take over the worker of the other candidate.
  have either {o o' : Option WorkerId} {w : WorkerId} (named : (o <|> o') = some w) :
      o = some w ∨ o' = some w := by
    cases o with
    | none => exact Or.inr named
    | some => exact Or.inl named
  obtain ⟨⟨p, hp, said⟩, worker⟩ := first
  obtain ⟨⟨q, hq, said'⟩, worker'⟩ := second
  rw [← same] at worker'
  unfold Folded.merge
  split
  · exact ⟨⟨q, hq, said'⟩, same ▸ worker'⟩
  · split
    · exact ⟨⟨p, hp, said⟩, worker⟩
    · split
      · exact ⟨⟨q, hq, said'⟩, fun w named => same ▸ (either named).elim (worker' w) (worker w)⟩
      · exact ⟨⟨p, hp, said⟩, fun w named => (either named).elim (worker w) (worker' w)⟩

theorem foldPending_backed (batch : List Pending) : ∀ f ∈ foldPending batch, Backed batch f := by
  induction batch using List.reverseRecOn with
  | nil => exact List.forall_mem_nil _
  | append_singleton batch p ih =>
    intro f hf
    have last : p ∈ batch ++ [p] := List.mem_append_right _ (List.mem_singleton.mpr rfl)
    have earlier : ∀ g ∈ foldPending batch, Backed (batch ++ [p]) g := fun g hg =>
      (ih g hg).mono (List.subset_append_left _ _)
    rw [foldPending, List.foldl_append] at hf
    rcases mem_insert (foldPending_summarizes batch).sorted hf with
      ⟨old, -⟩ | ⟨rfl, -⟩ | ⟨g, hg, same, rfl⟩
    · exact earlier f old
    · exact backed_ofPending last
    · exact (earlier g hg).merge (backed_ofPending last) same

end Folded

namespace ReadModel

variable {m m' : ReadModel} {row row' : TaskRow} {i : TaskId} {f : Folded} {fs : List Folded}
  {tenant : TenantId} {share limit n : Nat} {now : Instant} {taken : List Pending}

/-! ### Applying candidates -/

/-- When the task has ended, as far as the row tells. -/
def finished? (m : ReadModel) (i : TaskId) : Option Instant := findKey? i m.finishedAt

theorem findKey?_eraseKey {index : List (TaskId × Instant)} {j : TaskId} :
    findKey? i (eraseKey j index) = if i = j then none else findKey? i index := by
  simp only [findKey?, eraseKey, List.find?_filter]
  split
  · rename_i same
    rw [Option.map_eq_none_iff, List.find?_eq_none]
    rintro ⟨k, moment⟩ -
    simp [same]
  · rename_i other
    congr 2
    funext e
    by_cases mine : e.1 = i
    · simp [mine, other]
    · simp [mine]

theorem findKey?_putKey {index : List (TaskId × Instant)} {j : TaskId} {moment : Instant} :
    findKey? i (putKey j moment index) = if i = j then some moment else findKey? i index := by
  have rest := @findKey?_eraseKey i index j
  simp only [findKey?, putKey, eraseKey, List.find?_cons] at rest ⊢
  by_cases mine : i = j
  · simp [mine]
  · have other : (j == i) = false := by simpa using Ne.symm mine
    simpa [other, mine] using rest

theorem applyFolded_target {target : TaskRow} (accepted : m.target? f = some target) (i : TaskId) :
    (m.applyFolded f).2.task? i = (if i = f.taskId then some (applyTo target f) else m.task? i) ∧
      (m.applyFolded f).2.finished? i = if i = f.taskId then
        (if f.status.isTerminal then some f.timestamp else none) else m.finished? i := by
  have found := (Option.filter_eq_some_iff.mp accepted).1
  have id : (applyTo target f).id = f.taskId := (task?_id found : target.id = _)
  simp only [applyFolded, accepted]
  constructor
  · refine find?_replace.trans ?_
    rw [id]
    split
    · rename_i mine
      subst mine
      exact congrArg (Option.map fun _ => applyTo target f) found
    · rfl
  · rw [finished?, id]
    split
    · rw [findKey?_putKey, finished?]
    · rw [findKey?_eraseKey, finished?]

theorem applyFolded_row (h : m.task? i = some row) :
    ((m.applyFolded f).2.task? i = some row ∧ (m.applyFolded f).2.finished? i = m.finished? i) ∨
      f.taskId = i ∧ f.mark.replaces row.mark = true ∧
        (m.applyFolded f).2.task? i = some (applyTo row f) ∧
          (m.applyFolded f).2.finished? i = if f.status.isTerminal then some f.timestamp else none := by
  cases accepted : m.target? f with
  | none =>
    have refused : m.applyFolded f = (none, m) := by simp only [applyFolded, accepted]
    rw [refused]
    exact Or.inl ⟨h, rfl⟩
  | some target =>
    obtain ⟨row?, finished⟩ := applyFolded_target accepted i
    rw [row?, finished]
    by_cases mine : i = f.taskId
    · subst mine
      obtain ⟨found, may⟩ := Option.filter_eq_some_iff.mp accepted
      cases h.symm.trans found
      rw [if_pos rfl, if_pos rfl]
      exact Or.inr ⟨rfl, may, rfl, rfl⟩
    · rw [if_neg mine, if_neg mine]
      exact Or.inl ⟨h, rfl⟩

/-- A row was changed by an event that a pass has taken. The row shows its attempt and status, and the
task has ended when it happened. The worker is one that an event under the same number has named. -/
structure ChangedBy (taken : List Pending) (row row' : TaskRow) (finished : Option Instant)
    (p : Pending) : Prop where
  listed : p ∈ taken
  task : p.taskId = row.id
  replaces : p.mark.replaces row.mark = true
  mark : row'.mark = p.mark
  finished : finished = if p.status.isTerminal then some p.timestamp else none
  worker : row'.latestWorkerId = row.latestWorkerId ∨
    ∃ q ∈ taken, q.taskId = row.id ∧ ∃ w, q.workerId = some w ∧ row'.latestWorkerId = some w
  rest : row' = { row with
    status := row'.status
    latestRetryCount := row'.latestRetryCount
    latestWorkerId := row'.latestWorkerId }

theorem replaces_trans {a b c : Mark} (first : b.replaces a = true) (second : c.replaces b = true) :
    c.replaces a = true := by
  rw [Mark.replaces_iff] at first second ⊢
  exact ⟨Int.le_trans first.1 second.1, Nat.lt_trans first.2 second.2⟩

theorem applyTo_worker (said : Folded.Backed taken f) (mine : f.taskId = row.id) :
    (applyTo row f).latestWorkerId = row.latestWorkerId ∨ ∃ q ∈ taken, q.taskId = row.id ∧
      ∃ w, q.workerId = some w ∧ (applyTo row f).latestWorkerId = some w := by
  cases named : f.workerId with
  | none => exact Or.inl (by simp [applyTo, named])
  | some w =>
    obtain ⟨q, hq, place, told⟩ := said.worker w named
    exact Or.inr ⟨q, hq, (Folded.task_of_place place).trans mine, w, told, by simp [applyTo, named]⟩

/-- Each candidate of the row that is applied takes the place of the one before. -/
theorem applyAll_row (h : m.task? i = some row) (backed : ∀ f ∈ fs, Folded.Backed taken f) :
    ∃ row', (m.applyAll fs).2.task? i = some row' ∧
      ((row' = row ∧ (m.applyAll fs).2.finished? i = m.finished? i) ∨
        ∃ p, ChangedBy taken row row' ((m.applyAll fs).2.finished? i) p) := by
  -- The rest is applied to what the first candidate has left, and `replaces` is transitive.
  induction fs generalizing m row with
  | nil => exact ⟨row, h, Or.inl ⟨rfl, rfl⟩⟩
  | cons f rest ih =>
    obtain ⟨said, others⟩ := List.forall_mem_cons.mp backed
    rcases applyFolded_row (f := f) h with ⟨found, same⟩ | ⟨task, replaces, found, finished⟩
    · obtain ⟨row', found', changed⟩ := ih found others
      exact ⟨row', found', changed.imp_left (And.imp_right (·.trans same))⟩
    · have mine : f.taskId = row.id := task.trans (task?_id h).symm
      have worker := applyTo_worker said mine
      obtain ⟨row', found', ⟨rfl, same⟩ | ⟨q, changed⟩⟩ := ih found others
      · obtain ⟨p, hp, place, mark, moment⟩ := said.event
        refine ⟨_, found', Or.inr ⟨p, hp, (Folded.task_of_place place).trans mine,
          mark ▸ replaces, mark.symm, ?_, worker, rfl⟩⟩
        refine same.trans (finished.trans ?_)
        rw [moment, show p.status = f.status from congrArg Mark.status mark]
      · refine ⟨row', found', Or.inr ⟨q, changed.listed, changed.task,
          replaces_trans replaces changed.replaces, changed.mark, changed.finished, ?_, changed.rest⟩⟩
        rcases changed.worker with kept | named
        · rw [kept]
          exact worker
        · exact Or.inr named

/-! ### Passes -/

theorem takeDue_due {α : Type} {due : α → Bool} {l : List α} {a : α}
    (taken : a ∈ (takeDue due limit l).1) : due a = true := by
  induction l generalizing limit with
  | nil => simp [takeDue] at taken
  | cons b rest ih =>
    cases limit with
    | zero => simp [takeDue] at taken
    | succ limit =>
      unfold takeDue at taken
      split at taken
      · rename_i here
        rcases List.mem_cons.mp taken with rfl | later
        · exact here
        · exact ih later
      · exact ih taken

theorem queueDags_finished (ids : List DagId) :
    (ids.foldl (fun m id => m.queueDag tenant now id) m).finishedAt = m.finishedAt := by
  induction ids generalizing m with
  | nil => rfl
  | cons id rest ih =>
    refine (ih (m := m.queueDag tenant now id)).trans ?_
    unfold queueDag
    split <;> rfl

abbrev due (m : ReadModel) (tenant : TenantId) (share limit : Nat) (now : Instant) : List Pending :=
  (takeDue (eventDue tenant share now) limit m.pendingEvents).1.map (·.2)

theorem due_pending {p : Pending} (h : p ∈ m.due tenant share limit now) :
    (share, p) ∈ m.pendingEvents ∧ p.tenantId = tenant := by
  obtain ⟨⟨k, p⟩, taken, rfl⟩ := List.mem_map.mp h
  have fits := takeDue_due taken
  simp only [eventDue, Bool.and_eq_true, beq_iff_eq] at fits
  obtain ⟨⟨rfl, owner⟩, -⟩ := fits
  exact ⟨mem_takeDue.mpr (Or.inl taken), owner⟩

theorem foldTasks_changes (found : m.task? i = some row)
    (done : m.foldTasks tenant share limit now = .ok (n, m')) :
    ∃ row', m'.task? i = some row' ∧ ((row' = row ∧ m'.finished? i = m.finished? i) ∨
      ∃ p, ChangedBy (m.due tenant share limit now) row row' (m'.finished? i) p) := by
  simp only [foldTasks] at done
  obtain ⟨m₂, back, done⟩ := bind_ok done
  obtain ⟨again, -, back⟩ := bind_ok back
  cases back
  cases done
  obtain ⟨row', found', changed⟩ := applyAll_row (m := { m with pendingEvents :=
    (takeDue (eventDue tenant share now) limit m.pendingEvents).2 }) found
      (Folded.foldPending_backed (m.due tenant share limit now))
  refine ⟨row', ?_, ?_⟩
  · rw [task?, queueDags_same.1]
    exact found'
  · rw [finished?, queueDags_finished]
    exact changed

/-! ### Operations -/

/-- The tenant whom an operation is for. -/
def Operation.caller? : Operation → Option TenantId
  | .createTasks tenant _ | .createDags tenant _ | .insertEvents _ tenant _
  | .foldTasks tenant _ _ _ | .foldDags tenant _ _ _ => some tenant
  | .maintain _ | .attachPartition _ _ => none

theorem addTasks_keep (found : m.task? i = some row) (ts : List Task) :
    (ts.foldl addTask m).task? i = some row ∧ (ts.foldl addTask m).finishedAt = m.finishedAt := by
  induction ts generalizing m with
  | nil => exact ⟨found, rfl⟩
  | cons t rest ih =>
    have kept : (m.addTask t).task? i = some row := by
      rw [addTask_task?, if_neg, found]
      rintro ⟨rfl, missing⟩
      cases missing.symm.trans found
    obtain ⟨last, finished⟩ := ih kept
    refine ⟨last, finished.trans ?_⟩
    unfold addTask
    split <;> rfl

theorem addDags_finished (ds : List Dag) : (ds.foldl addDag m).finishedAt = m.finishedAt := by
  induction ds generalizing m with
  | nil => rfl
  | cons d rest ih =>
    refine ih.trans ?_
    unfold addDag
    split <;> rfl

theorem foldDags_finished (done : m.foldDags tenant share limit now = .ok (n, m')) :
    m'.finishedAt = m.finishedAt := by
  obtain ⟨m₁, folded, done⟩ := bind_ok done
  cases done
  refine foldlM_ok (P := fun m' => m'.finishedAt = m.finishedAt) folded rfl ?_
  intro m₁ p _ m₂ same step
  refine Eq.trans ?_ same
  unfold foldDag at step
  split at step
  · cases step
    unfold refreshDag
    simp only
    split <;> rfl
  · split at step
    · obtain ⟨_, _, step⟩ := bind_ok step
      cases step
      rfl
    · cases step
      rfl

/-- An operation for a tenant takes what waits for the tenant. -/
theorem perform_taken {op : Operation} (called : op.caller? = some tenant)
    (done : m.perform op = .ok (taken, m')) :
    ∀ p ∈ taken, p.tenantId = tenant ∧ p ∈ m.waiting p.taskId := by
  cases performs done with
  | foldTasks =>
    cases called
    intro p hp
    obtain ⟨waits, owner⟩ := due_pending hp
    exact ⟨owner, mem_waiting.mpr ⟨⟨_, waits⟩, rfl⟩⟩
  | insertEvents | createTasks | createDags | foldDags => exact List.forall_mem_nil _
  | maintain | attachPartition => cases called

/-- In whatever state, what is done for a tenant changes a row by events that were taken under the
number of the row, or not at all. -/
theorem perform_changes {op : Operation} (called : op.caller? = some tenant)
    (done : m.perform op = .ok (taken, m')) (found : m.task? i = some row) :
    ∃ row', m'.task? i = some row' ∧ ((row' = row ∧ m'.finished? i = m.finished? i) ∨
      ∃ p, ChangedBy taken row row' (m'.finished? i) p) := by
  cases performs done with
  | createTasks created =>
    rw [createTasks_rows created]
    obtain ⟨kept, finished⟩ := addTasks_keep found _
    exact ⟨row, kept, Or.inl ⟨rfl, congrArg (findKey? i) finished⟩⟩
  | createDags created =>
    obtain ⟨tasks, -⟩ := createDags_same created
    have finished : m'.finishedAt = m.finishedAt := by rw [createDags_rows created, addDags_finished]
    refine ⟨row, ?_, Or.inl ⟨rfl, congrArg (findKey? i) finished⟩⟩
    rw [task?, tasks]
    exact found
  | insertEvents => exact ⟨row, found, Or.inl ⟨rfl, rfl⟩⟩
  | foldTasks folded =>
    cases called
    exact foldTasks_changes found folded
  | foldDags folded =>
    refine ⟨row, ?_, Or.inl ⟨rfl, congrArg (findKey? i) (foldDags_finished folded)⟩⟩
    rw [task?, (foldDags_same folded).1]
    exact found
  | maintain | attachPartition => cases called

theorem ChangedBy.among {own : List Pending} {finished : Option Instant} {p : Pending}
    (changed : ChangedBy taken row row' finished p) (all : ∀ q ∈ taken, q.taskId = row.id → q ∈ own) :
    ChangedBy own row row' finished p :=
  { changed with
    listed := all p changed.listed changed.task
    worker := changed.worker.imp_right fun ⟨q, hq, task, named⟩ => ⟨q, all q hq task, task, named⟩ }

/-- If whatever waits under the number of a row was told of the row, then an operation for a tenant
changes the row only if it is the tenant's, and by events of the row. -/
theorem row_changes_by_own_events {op : Operation} (called : op.caller? = some tenant)
    (done : m.perform op = .ok (taken, m')) (found : m.task? i = some row)
    (own : ∀ p ∈ m.waiting i, p.tenantId = row.tenantId ∧ p.taskInsertedAt = row.insertedAt) :
    ∃ row', m'.task? i = some row' ∧ ((row' = row ∧ m'.finished? i = m.finished? i) ∨
      tenant = row.tenantId ∧
        ∃ p, ChangedBy (taken.filter (·.isOf row)) row row' (m'.finished? i) p) := by
  obtain ⟨row', found', changed⟩ := perform_changes called done found
  refine ⟨row', found', changed.imp_right ?_⟩
  rintro ⟨p, changed⟩
  have took := perform_taken called done
  have told : ∀ q ∈ taken, q.taskId = row.id →
      q.tenantId = row.tenantId ∧ q.taskInsertedAt = row.insertedAt := by
    intro q hq task
    have waits := (took q hq).2
    rw [task, task?_id found] at waits
    exact own q waits
  refine ⟨(took p changed.listed).1.symm.trans (told p changed.listed changed.task).1, p, ?_⟩
  refine changed.among fun q hq task => List.mem_filter.mpr ⟨hq, ?_⟩
  obtain ⟨owner, created⟩ := told q hq task
  simp [Pending.isOf, task, owner, created]

/-! ### Numbers that are used once -/

/-- Whatever the operation brings says of a number that it belongs to the same task. -/
def Operation.Agrees (owner : TaskId → TenantId × Instant) : Operation → Prop
  | .createTasks _ ts => ∀ t ∈ ts, owner t.id = (t.tenantId, t.insertedAt)
  | .insertEvents _ _ es => ∀ e ∈ es, owner e.taskId = (e.tenantId, e.taskInsertedAt)
  | .createDags _ _ | .foldTasks _ _ _ _ | .foldDags _ _ _ _ | .maintain _ | .attachPartition _ _ => True

instance (owner : TaskId → TenantId × Instant) : DecidablePred (Operation.Agrees owner)
  | .createTasks _ ts => inferInstanceAs (Decidable (∀ t ∈ ts, owner t.id = (t.tenantId, t.insertedAt)))
  | .insertEvents _ _ es =>
    inferInstanceAs (Decidable (∀ e ∈ es, owner e.taskId = (e.tenantId, e.taskInsertedAt)))
  | .createDags _ _ | .foldTasks _ _ _ _ | .foldDags _ _ _ _ | .maintain _ | .attachPartition _ _ =>
    inferInstanceAs (Decidable True)

/-- Rows and waiting events agree on whose the numbers are. -/
structure Agreed (owner : TaskId → TenantId × Instant) (m : ReadModel) : Prop where
  rows : ∀ row ∈ m.tasks, owner row.id = (row.tenantId, row.insertedAt)
  pending : ∀ q ∈ m.pendingEvents, owner q.2.taskId = (q.2.tenantId, q.2.taskInsertedAt)

variable {owner : TaskId → TenantId × Instant}

theorem Agreed.waiting (agreed : m.Agreed owner) (found : m.task? i = some row) :
    ∀ p ∈ m.waiting i, p.tenantId = row.tenantId ∧ p.taskInsertedAt = row.insertedAt := by
  intro p hp
  obtain ⟨⟨share, waits⟩, mine⟩ := mem_waiting.mp hp
  have here := agreed.rows row (List.mem_of_find?_eq_some found)
  have there := agreed.pending _ waits
  rw [mine, ← task?_id found, here] at there
  exact ⟨(congrArg Prod.fst there).symm, (congrArg Prod.snd there).symm⟩

theorem Agreed.same (agreed : m.Agreed owner) (tasks : m'.tasks = m.tasks)
    (pending : m'.pendingEvents = m.pendingEvents) : m'.Agreed owner :=
  ⟨tasks ▸ agreed.rows, pending ▸ agreed.pending⟩

theorem Agreed.addTasks (agreed : m.Agreed owner) {ts : List Task}
    (agrees : ∀ t ∈ ts, owner t.id = (t.tenantId, t.insertedAt)) :
    (ts.foldl addTask m).Agreed owner := by
  refine List.foldlRecOn ts addTask agreed fun m agreed t listed => ?_
  unfold addTask
  split
  · exact agreed
  · refine ⟨fun r hr => ?_, agreed.pending⟩
    rcases Ascending.mem_of_mem_put hr with rfl | old
    · exact agrees t listed
    · exact agreed.rows r old

theorem Agreed.applyFolded (agreed : m.Agreed owner) : (m.applyFolded f).2.Agreed owner := by
  unfold ReadModel.applyFolded
  split
  · exact agreed
  · rename_i target accepted
    have known := List.mem_of_find?_eq_some (Option.filter_eq_some_iff.mp accepted).1
    refine ⟨List.forall_mem_map.mpr fun r hr => ?_, agreed.pending⟩
    split
    · exact (agreed.rows target known : _)
    · exact agreed.rows r hr

theorem Agreed.applyAll (agreed : m.Agreed owner) : (m.applyAll fs).2.Agreed owner := by
  induction fs generalizing m with
  | nil => exact agreed
  | cons f rest ih => exact ih agreed.applyFolded

theorem requeued_owner {p q : Pending} (h : p.requeued now = .ok (some q)) :
    q.taskId = p.taskId ∧ q.tenantId = p.tenantId ∧ q.taskInsertedAt = p.taskInsertedAt := by
  unfold Pending.requeued at h
  split at h
  · cases h
  · obtain ⟨after, _, h⟩ := bind_ok h
    cases h
    exact ⟨rfl, rfl, rfl⟩

theorem Agreed.putBack {batch : List Pending} (agreed : m.Agreed owner)
    (listed : ∀ p ∈ batch, owner p.taskId = (p.tenantId, p.taskInsertedAt))
    (back : m.putBack share now batch = .ok m') : m'.Agreed owner := by
  obtain ⟨again, requeued, back⟩ := bind_ok back
  cases back
  refine ⟨agreed.rows, fun q hq => ?_⟩
  rcases List.mem_append.mp hq with old | new
  · exact agreed.pending q old
  · obtain ⟨p, hp, rfl⟩ := List.mem_map.mp new
    obtain ⟨p₀, taken, back⟩ := mem_of_filterMapM requeued hp
    obtain ⟨task, tenant', created⟩ := requeued_owner back
    rw [task, tenant', created]
    exact listed p₀ (List.mem_filter.mp taken).1

theorem Agreed.foldTasks (agreed : m.Agreed owner)
    (done : m.foldTasks tenant share limit now = .ok (n, m')) : m'.Agreed owner := by
  have listed : ∀ p ∈ m.due tenant share limit now, owner p.taskId = (p.tenantId, p.taskInsertedAt) :=
    fun p taken => agreed.pending _ (due_pending taken).1
  have kept : Agreed owner { m with pendingEvents :=
      (takeDue (eventDue tenant share now) limit m.pendingEvents).2 } :=
    ⟨agreed.rows, fun q hq => agreed.pending q (mem_takeDue.mpr (Or.inr hq))⟩
  have applied : Agreed owner (ReadModel.applyAll _ (foldPending (m.due tenant share limit now))).2 :=
    kept.applyAll
  simp only [ReadModel.foldTasks] at done
  obtain ⟨m₂, back, done⟩ := bind_ok done
  cases done
  exact (applied.putBack listed back).same queueDags_same.1 queueDags_same.2.1

theorem Agreed.perform {op : Operation} (agreed : m.Agreed owner) (agrees : op.Agrees owner)
    (done : m.perform op = .ok (taken, m')) : m'.Agreed owner := by
  cases performs done with
  | createTasks created =>
    rw [createTasks_rows created]
    exact agreed.addTasks fun t ht => agrees t (List.mem_filter.mp ht).1
  | createDags created =>
    obtain ⟨tasks, -, pending⟩ := createDags_same created
    exact agreed.same tasks pending
  | insertEvents =>
    refine ⟨agreed.rows, fun q hq => ?_⟩
    rcases List.mem_append.mp hq with old | new
    · exact agreed.pending q old
    · obtain ⟨e, he, rfl⟩ := List.mem_map.mp new
      exact agrees e (List.mem_filter.mp he).1
  | foldTasks folded => exact agreed.foldTasks folded
  | foldDags folded =>
    obtain ⟨tasks, -, pending⟩ := foldDags_same folded
    exact agreed.same tasks pending
  | maintain now =>
    obtain ⟨fewer, -, pending⟩ := maintain_same m now
    exact ⟨fun row hr => agreed.rows row (fewer.subset hr), pending ▸ agreed.pending⟩
  | attachPartition => exact agreed.same rfl rfl

/-- As long as no number is used twice, whatever waits under the number of a row was told of it. -/
theorem after_agreed {partitions days : Nat} {ops : List Operation}
    (agree : ∀ op ∈ ops, op.Agrees owner) (readable : after partitions days ops = .sound m) :
    m.Agreed owner := by
  induction ops using List.reverseRecOn generalizing m with
  | nil =>
    cases readable
    exact ⟨List.forall_mem_nil _, List.forall_mem_nil _⟩
  | append_singleton ops op ih =>
    obtain ⟨before, last⟩ := List.forall_mem_append.mp agree
    obtain ⟨m₁, earlier, ⟨rfl, -⟩ | ⟨taken, done, -⟩⟩ := after_concat readable
    · exact ih before earlier
    · exact (ih before earlier).perform (last op (List.mem_singleton.mpr rfl)) done

/-! ### Two tenants -/

/-- Each of two tenants has a task, and something was told of both. -/
def neighbours : List Operation := [
  .attachPartition .tasks Instant.epoch.date,
  .attachPartition .runs Instant.epoch.date,
  .createTasks ⟨1⟩ [{ (default : Task) with id := 1, tenantId := ⟨1⟩ }],
  .createTasks ⟨2⟩ [{ (default : Task) with id := 2, tenantId := ⟨2⟩ }],
  .insertEvents .epoch ⟨1⟩
    [{ (default : TaskEvent) with tenantId := ⟨1⟩, taskId := 1, eventType := .started, status := .running }],
  .insertEvents .epoch ⟨2⟩
    [{ (default : TaskEvent) with tenantId := ⟨2⟩, taskId := 2, eventType := .finished, status := .completed }]]

theorem neighbours_agree : ∀ op ∈ neighbours, op.Agrees fun i => (if i = 1 then ⟨1⟩ else ⟨2⟩, .epoch) := by
  decide

/-- A pass for the second tenant completes the task of that tenant, and leaves the other one alone. -/
theorem neighbours_apart : ∃ m taken m', after 1 7 neighbours = .sound m ∧
    m.perform (.foldTasks ⟨2⟩ 0 10 .epoch) = .ok (taken, m') ∧
      (∃ row, m'.task? 2 = some row ∧ row.status = .completed ∧ m'.finished? 2 = some .epoch) ∧
        ∃ row, m.task? 1 = some row ∧ m'.task? 1 = some row := by
  obtain ⟨m, taken, m', row, readable, done, completed, found, owner⟩ : ∃ m taken m' row,
      after 1 7 neighbours = .sound m ∧
      m.perform (.foldTasks ⟨2⟩ 0 10 .epoch) = .ok (taken, m') ∧
      (∃ row, m'.task? 2 = some row ∧ row.status = .completed ∧ m'.finished? 2 = some .epoch) ∧
      m.task? 1 = some row ∧ row.tenantId = ⟨1⟩ :=
    ⟨_, _, _, _, rfl, rfl, ⟨_, rfl, rfl, rfl⟩, rfl, rfl⟩
  have own := (after_agreed neighbours_agree readable).waiting found
  obtain ⟨row', found', ⟨rfl, -⟩ | ⟨foreign, -⟩⟩ := row_changes_by_own_events rfl done found own
  · exact ⟨m, taken, m', readable, done, completed, row', found, found'⟩
  · rw [owner] at foreign
    cases foreign

/-- If the second tenant tells of a task under a number of the first one, it completes that task. -/
example : ∃ m taken m' row, after 1 7 (neighbours ++ [.insertEvents .epoch ⟨2⟩
    [{ (default : TaskEvent) with
      tenantId := ⟨2⟩, taskId := 1, eventType := .finished, status := .completed }]]) = .sound m ∧
    m.perform (.foldTasks ⟨2⟩ 0 10 .epoch) = .ok (taken, m') ∧
      m'.task? 1 = some row ∧ row.tenantId = ⟨1⟩ ∧ row.status = .completed :=
  ⟨_, _, _, _, rfl, rfl, rfl, rfl, rfl⟩

end ReadModel

end WorkflowEngine
