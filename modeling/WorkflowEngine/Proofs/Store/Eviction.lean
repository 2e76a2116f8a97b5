import WorkflowEngine.Proofs.Store.Attempts
import WorkflowEngine.Proofs.Store.Custody

/-!
What becomes of an attempt that a strategy evicts. It is the current attempt of its task then. The task
stays whatever happens, so that the attempt remains the current one until it is over, and an order to
cancel it makes it so.
-/

namespace WorkflowEngine

/-- The command runs a strategy, by which attempts may be evicted. -/
def Command.evicts : Command → Bool
  | .runStrategy .. => true
  | _ => false

namespace Store

open Fallible
open Admission (Decision)

variable {s s' : Store} {t u : Task} {i : TaskId} {c : Command} {tenant : TenantId} {a : Attempt}
  {attempts evicted more : List Attempt} {ds : List Decision} {strategy : Strategy}

/-! ### Tasks and their tenants -/

/-- The tenant has a task of that id. -/
def Owns (s : Store) (tenant : TenantId) (i : TaskId) : Prop :=
  ∃ t ∈ s.tasks, t.id = i ∧ t.tenantId = tenant

theorem Owns.of_tasks (owns : s.Owns tenant i) (tasks : s'.tasks = s.tasks) : s'.Owns tenant i := by
  rwa [Owns, tasks]

theorem Owns.setTask (owns : s.Owns tenant i) (ordered : s.Ordered) (ht : t ∈ s.tasks)
    (keeps : t.Keeps u) : (s.setTask u).Owns tenant i := by
  obtain ⟨v, hv, id, owner⟩ := owns
  by_cases mine : v.id = u.id
  · obtain rfl := ordered.eq_of_id hv ht (mine.trans keeps.id)
    exact ⟨u, mem_setTask.mpr (Or.inl ⟨rfl, v, hv, mine⟩), mine.symm.trans id,
      keeps.tenant.trans owner⟩
  · exact ⟨v, mem_setTask.mpr (Or.inr ⟨hv, mine⟩), id, owner⟩

theorem Move.owns (move : Move s evicted s') (sound : s.Sound) (owns : s.Owns tenant i) :
    s'.Owns tenant i := by
  have ordered := sound.ordered
  cases move with
  | created known own free done =>
    obtain ⟨t, ht, about⟩ := owns
    refine ⟨t, ?_, about⟩
    rw [(insertTask_tasks free done).1]
    exact List.mem_append_left _ ht
  | ended ht live keeps ends => exact owns.setTask ordered ht keeps
  | retried ht live keeps state => exact (owns.setTask ordered ht keeps).of_tasks enqueue_tasks
  | started ht keeps attempt state waits => exact owns.setTask ordered ht keeps
  | ran tenant strategy => exact owns.of_tasks runStrategy_tasks
  | registered valid => exact owns
  | refreshed tenant strategy => exact owns.of_tasks (by rw [refreshActive_eq])
  | other alike => exact owns.of_tasks alike.tasks

theorem Moves.owns (moves : Moves s evicted s') (sound : s.Sound) (owns : s.Owns tenant i) :
    s'.Owns tenant i := by
  induction moves with
  | none => exact owns
  | more before move ih => exact move.owns (before.sound sound) ih

/-! ### Attempts that are over -/

/-- The attempt is over: its task has come to a later one, or has ended with it. -/
def Past (s : Store) (a : Attempt) : Prop :=
  ∃ t ∈ s.tasks, t.id = a.id ∧
    (a.retryCount < t.retryCount ∨ (t.retryCount = a.retryCount ∧ t.state.isTerminal = true))

/-- The attempt is the current one of a task of the tenant. -/
def Current (s : Store) (tenant : TenantId) (a : Attempt) : Prop :=
  ∃ t ∈ s.tasks, t.attempt = a ∧ t.tenantId = tenant

theorem Past.ended (past : s.Past a) (sound : s.Sound) (ht : t ∈ s.tasks) (current : t.attempt = a) :
    t.state.isTerminal = true := by
  obtain ⟨u, hu, id, gone⟩ := past
  subst current
  obtain rfl := sound.ordered.eq_of_id hu ht id
  exact (gone.resolve_left (Int.lt_irrefl _)).2

theorem Ordered.accepted?_eq (ordered : s.Ordered) (ht : t ∈ s.tasks)
    (live : t.state.isTerminal = false) : s.accepted? t.tenantId t.attempt = some t := by
  simp [accepted?, tenantTask?, Task.accepts, Task.attempt, ordered.task?_eq ht, live]

/-- Attempts are counted up, and a task that has ended stays as it is. -/
theorem obey_past (sound : s.Sound) (past : s.Past a) (done : s.obey c = .ok (more, s')) :
    s'.Past a := by
  refine obey_induction (P := fun s => s.Past a) sound past ?_ done
  intro s s' more c' single sound past obeyed
  obtain ⟨t, ht, id, gone⟩ := past
  obtain ⟨u, hu, turn⟩ := (obey_turned sound single obeyed).kept t ht
  refine ⟨u, hu, turn.id_eq.trans id, ?_⟩
  rcases gone with later | ⟨same, ended⟩
  · rcases turn.retryCount with goes | ⟨again, _⟩ <;> omega
  · rw [turn.ended ended]
    exact Or.inr ⟨same, ended⟩

/-- Whatever happens to a task, its attempt is the current one until it is over. -/
theorem obey_current (sound : s.Sound) (current : s.Current tenant a)
    (done : s.obey c = .ok (more, s')) : s'.Past a ∨ s'.Current tenant a := by
  refine obey_induction (P := fun s => s.Past a ∨ s.Current tenant a) sound (Or.inr current) ?_ done
  intro s s' more c' single sound before obeyed
  rcases before with past | ⟨t, ht, rfl, owner⟩
  · exact Or.inl (obey_past sound past obeyed)
  · obtain ⟨u, hu, turn⟩ := (obey_turned sound single obeyed).kept t ht
    rcases turn.retryCount with goes | ⟨again, _⟩
    · obtain ⟨v, hv, id, owner⟩ := (obey_moves obeyed).owns sound ⟨t, ht, rfl, owner⟩
      have ordered := ((obey_moves obeyed).sound sound).ordered
      obtain rfl := ordered.eq_of_id hv hu (id.trans turn.id_eq.symm)
      exact Or.inr ⟨v, hv, by rw [Task.attempt, turn.id_eq, goes]; rfl, owner⟩
    · refine Or.inl ⟨u, hu, turn.id_eq, Or.inl ?_⟩
      change t.retryCount < u.retryCount
      omega

/-- To cancel the current attempt of a task is to end the task, unless it has ended. -/
theorem cancelOne_past (sound : s.Sound) (current : s.Current tenant a) :
    (s.cancelOne tenant a).2.Past a := by
  obtain ⟨t, ht, rfl, rfl⟩ := current
  have ending := cancelOne_ending s t.tenantId t.attempt
  generalize s.cancelOne t.tenantId t.attempt = p at ending ⊢
  cases ending with
  | passed absent =>
    refine ⟨t, ht, rfl, Or.inr ⟨rfl, ?_⟩⟩
    cases live : t.state.isTerminal with
    | true => rfl
    | false =>
      rw [sound.ordered.accepted?_eq ht live] at absent
      cases absent
  | @ended u found schedule =>
    obtain ⟨hu, same⟩ := mem_of_task? (accepted?_eq_some found).1
    obtain rfl := sound.ordered.eq_of_id hu ht same
    exact ⟨closed u .cancelled schedule, mem_setTask.mpr (Or.inl ⟨rfl, u, ht, rfl⟩), rfl,
      Or.inr ⟨rfl, rfl⟩⟩

theorem cancel_past (sound : s.Sound) (current : s.Current tenant a) (ordered : a ∈ attempts) :
    (s.cancel tenant attempts).2.Past a := by
  induction attempts generalizing s with
  | nil => cases ordered
  | cons first rest ih =>
    have one : s.obey (.cancel tenant [first]) = .ok ([], (s.cancelOne tenant first).2) := rfl
    have sound' := (obey_moves one).sound sound
    have later : (s.cancelOne tenant first).2.obey (.cancel tenant rest) =
        .ok ([], (s.cancel tenant (first :: rest)).2) := rfl
    rcases List.mem_cons.mp ordered with rfl | listed
    · exact obey_past sound' (cancelOne_past sound current) later
    · rcases obey_current sound current one with past | current'
      · exact obey_past sound' past later
      · exact ih sound' current' listed

/-! ### Evictions -/

/-- What a strategy decides for a tenant is about current attempts of the tenant's tasks. -/
theorem Sound.decided_current {d : Decision} (sound : s.Sound)
    (hd : d ∈ s.decisions tenant strategy) : s.Current tenant d.task := by
  obtain ⟨k, hk, verdict⟩ := Admission.evaluate_backed sound.candidates_distinct hd
  obtain ⟨x, hx, rfl⟩ := List.mem_map.mp hk
  obtain ⟨here, mine⟩ := List.mem_filter.mp hx
  have listed : x ∈ s.slots := (List.mem_filter.mp here).1
  obtain ⟨t, ht, owner⟩ := sound.slotOwner x listed
  obtain ⟨tenant', attempt, -⟩ := (sound.standing t ht).own x (mem_slotsFor.mpr ⟨listed, owner.symm⟩)
  have about : x.task = d.task := by
    rcases verdict with rfl | ⟨_, rfl⟩ <;> rfl
  exact ⟨t, ht, attempt.symm.trans about, tenant'.symm.trans (eq_of_beq mine)⟩

/-- Only a strategy evicts attempts. -/
theorem obey_spares (spares : c.evicts = false) (done : s.obey c = .ok (more, s')) : more = [] := by
  cases c with
  | runStrategy => cases spares
  | registerTenant | registerWorker | createPartitions | complete | cancel | refreshActive =>
    cases done
    rfl
  | setWorkerActive | registerWorkflow | triggerEvents | triggerRuns | matchOutcomes | fail | assign =>
    obtain ⟨_, _, done⟩ := bind_ok done
    cases done
    rfl

/-- A strategy evicts current attempts, and they remain so. -/
theorem Sound.evicted_current (sound : s.Sound)
    (gone : a ∈ (s.runStrategy tenant strategy).1.cancelled.map (·.task)) :
    (s.runStrategy tenant strategy).2.Current tenant a := by
  rw [Current, runStrategy_tasks]
  rw [sound.runStrategy_eq] at gone
  obtain ⟨d, hd, -, rfl⟩ := Admission.Summary.mem_cancelled.mp gone
  exact sound.decided_current hd

theorem Reachable.kept (reached : Reachable evicted s) : Kept evicted s := by
  obtain ⟨internalRetries, moves⟩ := reached.moves
  exact (moves.kept (sound_empty internalRetries) (by intro x hx; cases hx)
    (by intro t ht; cases ht)).2

end Store

end WorkflowEngine
