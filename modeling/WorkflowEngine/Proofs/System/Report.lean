import WorkflowEngine.Proofs.ReadModel.Fold
import WorkflowEngine.Proofs.Store.Operation

/-!
What the store has to report. Everything that happens to a task is told by an event: that it ended, or
that its next attempt waits. A report stays true of its task as the task grows older: it is about the
attempt that ended, it says that an attempt waits, or it tells of a deadline that an attempt missed
which is over since. A task that has ended was reported with the status it ended in.
-/

namespace WorkflowEngine

/-- What an event says of an attempt. -/
structure Report where
  tenantId : TenantId
  taskId : TaskId
  retryCount : Int
  type : EventType
  deriving DecidableEq, Repr

/-- The event of an attempt that missed a deadline. -/
def EventType.isTimeout : EventType → Bool
  | .timedOut | .schedulingTimedOut => true
  | _ => false

/-- What readers are to see of a task in a state. -/
def TaskState.shown : TaskState → Status
  | .queued => .queued
  | .running => .running
  | .completed | .skipped => .completed
  | .failed => .failed
  | .cancelled => .cancelled

theorem TaskState.shown_rank {state : TaskState} (ended : state.isTerminal = true) :
    0 < state.shown.rank := by
  revert ended
  cases state <;> decide

/-- The later state of the same task: attempts are counted up, and what has ended stays as it is. -/
structure Task.Ages (t u : Task) : Prop where
  id : u.id = t.id
  tenant : u.tenantId = t.tenantId
  insertedAt : u.insertedAt = t.insertedAt
  attempts : t.retryCount ≤ u.retryCount
  ended : t.state.isTerminal = true → u.state = t.state ∧ u.retryCount = t.retryCount

namespace Task

variable {t u v : Task}

theorem Ages.refl (t : Task) : t.Ages t := ⟨rfl, rfl, rfl, Int.le_refl _, fun _ => ⟨rfl, rfl⟩⟩

theorem Ages.trans (first : t.Ages u) (second : u.Ages v) : t.Ages v := by
  refine ⟨second.id.trans first.id, second.tenant.trans first.tenant,
    second.insertedAt.trans first.insertedAt, Int.le_trans first.attempts second.attempts, ?_⟩
  intro ended
  obtain ⟨state, attempt⟩ := first.ended ended
  obtain ⟨state', attempt'⟩ := second.ended (state ▸ ended)
  exact ⟨state'.trans state, attempt'.trans attempt⟩

theorem Ages.of_live (live : t.state.isTerminal = false) (id : u.id = t.id)
    (tenant : u.tenantId = t.tenantId) (insertedAt : u.insertedAt = t.insertedAt)
    (attempts : t.retryCount ≤ u.retryCount) : t.Ages u :=
  ⟨id, tenant, insertedAt, attempts, fun ended => by rw [live] at ended; cases ended⟩

end Task

namespace Report

variable {r : Report} {t u : Task}

def mark (r : Report) : Mark := ⟨r.retryCount, r.type.status⟩

/-- The report is true of the task. -/
structure Fits (r : Report) (t : Task) : Prop where
  task : t.id = r.taskId
  tenant : t.tenantId = r.tenantId
  said : (r.type.status = .queued ∧ r.retryCount ≤ t.retryCount) ∨
    (r.retryCount = t.retryCount ∧ t.state.isTerminal = true ∧
      r.type.status.rank ≤ t.state.shown.rank) ∨
    (r.retryCount < t.retryCount ∧ r.type.isTimeout = true)

/-- The report tells how the task ended. -/
structure Ends (r : Report) (t : Task) : Prop where
  task : t.id = r.taskId
  tenant : t.tenantId = r.tenantId
  attempt : r.retryCount = t.retryCount
  status : r.type.status = t.state.shown

theorem Fits.ages (fits : r.Fits t) (ages : t.Ages u) : r.Fits u := by
  refine ⟨ages.id.trans fits.task, ages.tenant.trans fits.tenant, ?_⟩
  rcases fits.said with ⟨waits, attempt⟩ | ⟨attempt, ended, rank⟩ | ⟨earlier, timeout⟩
  · exact Or.inl ⟨waits, Int.le_trans attempt ages.attempts⟩
  · obtain ⟨state, same⟩ := ages.ended ended
    exact Or.inr (Or.inl ⟨attempt.trans same.symm, state ▸ ended, state ▸ rank⟩)
  · exact Or.inr (Or.inr ⟨Int.lt_of_lt_of_le earlier ages.attempts, timeout⟩)

theorem Ends.ages (ends : r.Ends t) (ended : t.state.isTerminal = true) (ages : t.Ages u) :
    r.Ends u := by
  obtain ⟨state, same⟩ := ages.ended ended
  exact ⟨ages.id.trans ends.task, ages.tenant.trans ends.tenant, ends.attempt.trans same.symm,
    ends.status.trans (congrArg _ state.symm)⟩

theorem Ends.fits (ends : r.Ends t) (ended : t.state.isTerminal = true) : r.Fits t :=
  ⟨ends.task, ends.tenant, Or.inr (Or.inl ⟨ends.attempt, ended, Nat.le_of_eq (congrArg _ ends.status)⟩)⟩

/-- No report has a higher mark than the one that tells the end. -/
theorem Fits.mark_le {last : Report} (fits : r.Fits t) (ends : last.Ends t) : r.mark ≤ last.mark := by
  rw [Mark.le_iff, mark, mark]
  simp only [ends.attempt, ends.status]
  rcases fits.said with ⟨waits, attempt⟩ | ⟨attempt, _, rank⟩ | ⟨earlier, _⟩
  · rcases Int.lt_or_eq_of_le attempt with earlier | same
    · exact Or.inl earlier
    · exact Or.inr ⟨same, by rw [waits]; exact Nat.zero_le _⟩
  · exact Or.inr ⟨attempt, rank⟩
  · exact Or.inl earlier

/-- Only a missed deadline of an attempt that is over can outrank the end. -/
theorem Fits.timeout (fits : r.Fits t) (higher : t.state.shown.rank < r.type.status.rank) :
    r.retryCount < t.retryCount ∧ r.type.isTimeout = true := by
  rcases fits.said with ⟨waits, _⟩ | ⟨_, _, rank⟩ | timeout
  · rw [waits] at higher
    exact absurd higher (Nat.not_lt_zero _)
  · exact absurd higher (Nat.not_lt.mpr rank)
  · exact timeout

end Report

namespace Store

variable {s s' s'' : Store} {t u : Task} {r : Report} {rs rs' : List Report}

/-- The store has changed, and the reports tell what has happened. -/
structure Told (s s' : Store) (rs : List Report) : Prop where
  kept : ∀ t ∈ s.tasks, ∃ u ∈ s'.tasks, t.Ages u
  born : ∀ u ∈ s'.tasks, (∃ t ∈ s.tasks, t.Ages u) ∨ 0 ≤ u.retryCount
  told : ∀ r ∈ rs, ∃ u ∈ s'.tasks, r.Fits u
  ended : ∀ u ∈ s'.tasks, u.state.isTerminal = true →
    (∃ t ∈ s.tasks, t.Ages u ∧ t.state.isTerminal = true) ∨ ∃ r ∈ rs, r.Ends u
  last : s.lastTaskId ≤ s'.lastTaskId

theorem Told.same (tasks : s'.tasks = s.tasks) (last : s'.lastTaskId = s.lastTaskId) :
    Told s s' [] := by
  refine ⟨?_, ?_, fun _ h => absurd h List.not_mem_nil, ?_, Int.le_of_eq last.symm⟩
  · exact fun t ht => ⟨t, tasks ▸ ht, .refl t⟩
  · exact fun u hu => Or.inl ⟨u, tasks ▸ hu, .refl u⟩
  · exact fun u hu ended => Or.inl ⟨u, tasks ▸ hu, .refl u, ended⟩

theorem Told.trans (first : Told s s' rs) (second : Told s' s'' rs') : Told s s'' (rs ++ rs') := by
  refine ⟨?_, ?_, ?_, ?_, Int.le_trans first.last second.last⟩
  · intro t ht
    obtain ⟨u, hu, ages⟩ := first.kept t ht
    obtain ⟨v, hv, ages'⟩ := second.kept u hu
    exact ⟨v, hv, ages.trans ages'⟩
  · intro v hv
    rcases second.born v hv with ⟨u, hu, ages'⟩ | new
    · rcases first.born u hu with ⟨t, ht, ages⟩ | new
      · exact Or.inl ⟨t, ht, ages.trans ages'⟩
      · exact Or.inr (Int.le_trans new ages'.attempts)
    · exact Or.inr new
  · intro r hr
    rcases List.mem_append.mp hr with before | now
    · obtain ⟨u, hu, fits⟩ := first.told r before
      obtain ⟨v, hv, ages⟩ := second.kept u hu
      exact ⟨v, hv, fits.ages ages⟩
    · exact second.told r now
  · intro v hv ended
    rcases second.ended v hv ended with ⟨u, hu, ages, past⟩ | ⟨r, hr, ends⟩
    · rcases first.ended u hu past with ⟨t, ht, ages', past'⟩ | ⟨r, hr, ends⟩
      · exact Or.inl ⟨t, ht, ages'.trans ages, past'⟩
      · exact Or.inr ⟨r, List.mem_append_left _ hr, ends.ages past ages⟩
    · exact Or.inr ⟨r, List.mem_append_right _ hr, ends⟩

/-- The order of reports does not matter, nor do more of them that are true. -/
theorem Told.add (told : Told s s' rs) (listed : ∀ r ∈ rs, r ∈ rs')
    (more : ∀ r ∈ rs', r ∈ rs ∨ ∃ u ∈ s'.tasks, r.Fits u) : Told s s' rs' := by
  refine ⟨told.kept, told.born, ?_, ?_, told.last⟩
  · exact fun r hr => (more r hr).elim (told.told r) id
  · intro u hu ended
    exact (told.ended u hu ended).imp_right fun ⟨r, hr, ends⟩ => ⟨r, listed r hr, ends⟩

end Store

end WorkflowEngine
