import WorkflowEngine.Proofs.Store.Neighbours

/-!
What a tenant has. The tasks of a run are of its tenant, and so are the strategies that a task is to pass
or holds slots in. Tenants keep what they have, so what a batch tells of one item still holds behind the
items after it.
-/

namespace WorkflowEngine

open Fallible Store

/-! ### The tenant of a run -/

namespace Agenda

/-- The tasks of a run are of its tenant. -/
def OwnRuns (a : Agenda) : Prop :=
  ∀ p ∈ a.parts, ∀ d, p.dagId = some d → ∃ r ∈ a.runs, r.dag.id = d ∧ r.dag.tenantId = p.tenantId

variable {told : Part → Outcome → Prop} {a b : Agenda} {lost : List WaitingStep}

theorem OwnRuns.add {parts : List Part} (own : a.OwnRuns) (same : b.parts = a.parts ++ parts)
    (kept : a.runs ⊆ b.runs)
    (new : ∀ p ∈ parts, ∀ d, p.dagId = some d → ∃ r ∈ b.runs, r.dag.id = d ∧ r.dag.tenantId = p.tenantId) :
    b.OwnRuns := by
  intro p hp d run
  rw [same] at hp
  rcases List.mem_append.mp hp with old | fresh
  · obtain ⟨r, hr, of⟩ := own p old d run
    exact ⟨r, kept hr, of⟩
  · exact new p fresh d run

theorem Advance.ownRuns (step : Advance told a lost b) (sound : a.Sound) (own : a.OwnRuns) :
    b.OwnRuns := by
  have kept := step.runs
  cases step with
  | alone single =>
    refine own.add rfl kept fun p hp d run => ?_
    rw [List.mem_singleton.mp hp, single] at run
    cases run
  | @opened w r roots known of next steps mine =>
    refine own.add rfl kept fun p hp d run => ?_
    obtain ⟨tenant, dag⟩ := mine p hp
    refine ⟨r, List.mem_append_right _ (List.mem_singleton.mpr rfl), ?_, of.tenant.trans tenant.symm⟩
    exact Option.some.inj (dag.symm.trans run)
  | heard => exact own
  | reordered => exact own
  | @started x rest p here ready defined tenant run step cancelled =>
    refine own.add rfl kept fun p' hp d run' => ?_
    obtain ⟨r, hr, id, owner⟩ := sound.waiting x (here ▸ List.mem_cons_self)
    rw [List.mem_singleton.mp hp] at run' ⊢
    exact ⟨r, hr, id.trans (Option.some.inj (run.symm.trans run')), owner.trans tenant.symm⟩
  | abandoned => exact own

theorem Advances.ownRuns (advances : Advances told a lost b) (sound : a.Sound) (own : a.OwnRuns) :
    b.OwnRuns := by
  induction advances with
  | none => exact own
  | more before step ih => exact step.ownRuns (before.sound sound) ih

end Agenda

namespace Store

variable {s s' : Store} {tenant : TenantId} {now : Instant} {i : TaskId} {σ : StrategyId}
  {σs : List StrategyId} {t u : Task} {a : Attempt} {evicted more : List Attempt} {cmd : Command}

theorem Reachable.ownRuns (reached : Reachable evicted s) : s.agenda.OwnRuns := by
  induction reached with
  | empty => intro p hp; cases hp
  | after before _ done ih =>
    rcases obey_agenda before.sound done with ⟨owner, w, _, _, agenda⟩ | advances
    · rw [agenda]
      exact ih
    · exact advances.ownRuns before.agenda ih

/-! ### What an answer names -/

/-- The tenant has the task, and the strategies that are named with it. -/
structure Has (s : Store) (tenant : TenantId) (i : TaskId) (σs : List StrategyId) : Prop where
  task : ∃ t ∈ s.tasks, t.id = i ∧ t.tenantId = tenant
  strategies : ∀ σ ∈ σs, s.Offers tenant σ

theorem Has.without (has : s.Has tenant i σs) : s.Has tenant i [] :=
  ⟨has.task, List.forall_mem_nil _⟩

theorem setTask_task (ordered : s.Ordered) (ht : t ∈ s.tasks) (keeps : t.Keeps u)
    (task : ∃ t ∈ s.tasks, t.id = i ∧ t.tenantId = tenant) :
    ∃ t ∈ (s.setTask u).tasks, t.id = i ∧ t.tenantId = tenant := by
  obtain ⟨v, hv, id, owner⟩ := task
  by_cases mine : v.id = u.id
  · obtain rfl := ordered.eq_of_id hv ht (mine.trans keeps.id)
    exact ⟨u, mem_setTask.mpr (Or.inl ⟨rfl, v, ht, mine⟩), keeps.id.trans id, keeps.tenant.trans owner⟩
  · exact ⟨v, mem_setTask.mpr (Or.inr ⟨hv, mine⟩), id, owner⟩

theorem Move.has (move : Move s evicted s') (sound : s.Sound) (has : s.Has tenant i σs) :
    s'.Has tenant i σs := by
  obtain ⟨task, strategies⟩ := has
  cases move with
  | created known own free done =>
    obtain ⟨t, ht, same⟩ := task
    refine ⟨⟨t, ?_, same⟩, fun σ member => (insertTask_terms free done).offers (strategies σ member)⟩
    rw [(insertTask_tasks free done).1]
    exact List.mem_append_left _ ht
  | ended ht _ keeps _ => exact ⟨setTask_task sound.ordered ht keeps task, strategies⟩
  | @retried t u ht _ keeps _ =>
    refine ⟨?_, fun σ member => enqueue_only.terms.offers (strategies σ member)⟩
    rw [enqueue_tasks]
    exact setTask_task sound.ordered ht keeps task
  | started ht keeps _ _ _ => exact ⟨setTask_task sound.ordered ht keeps task, strategies⟩
  | ran owner strategy =>
    refine ⟨?_, fun σ member => runStrategy_terms.offers (strategies σ member)⟩
    rwa [runStrategy_tasks]
  | registered valid =>
    refine ⟨task, fun σ member => ?_⟩
    obtain ⟨x, hx, of⟩ := strategies σ member
    exact ⟨x, List.mem_append_left _ hx, of⟩
  | refreshed owner strategy =>
    refine ⟨?_, fun σ member => refreshActive_terms.offers (strategies σ member)⟩
    rwa [refreshActive_eq]
  | other alike =>
    refine ⟨?_, fun σ member => alike.terms.offers (strategies σ member)⟩
    rwa [alike.tasks]

/-- What a tenant has it keeps. -/
theorem Moves.has (moves : Moves s evicted s') (sound : s.Sound) (has : s.Has tenant i σs) :
    s'.Has tenant i σs := by
  induction moves with
  | none => exact has
  | more before move ih => exact move.has (before.sound sound) ih

theorem Sound.has_task (sound : s.Sound) (ht : t ∈ s.tasks) :
    s.Has t.tenantId t.id t.concurrencyStrategyIds :=
  ⟨⟨t, ht, rfl, rfl⟩, (sound.wired t ht).offered⟩

/-- The strategies that a task holds slots in are of its tenant. -/
theorem Sound.has_slots (sound : s.Sound) (ht : t ∈ s.tasks) :
    s.Has t.tenantId t.id (s.heldBy t.id) := by
  refine ⟨⟨t, ht, rfl, rfl⟩, fun σ member => ?_⟩
  obtain ⟨x, hx, rfl⟩ := List.mem_map.mp (List.mem_mergeSort.mp member)
  obtain ⟨hx, mine⟩ := List.mem_filter.mp hx
  rw [← (sound.owned ht).slots x hx (eq_of_beq mine)]
  exact sound.slot_offered hx

/-! ### Attempts -/

variable {state : TaskState} {p : Option ReleasedTask × Store}
  {one : Store → Attempt → Option ReleasedTask × Store}

theorem Ending.confined (ending : Ending s tenant a state p) (sound : s.Sound)
    (terminal : state.isTerminal = true) :
    SparesPlaces tenant s p.2 ∧ ∀ x ∈ p.1, p.2.Has tenant x.id x.concurrencyStrategyIds := by
  have quiet := ending.quiet terminal
  cases ending with
  | passed => exact ⟨.refl tenant s, by simp⟩
  | @ended t found schedule =>
    obtain ⟨here, rfl, -, -⟩ := accepted?_eq_some found
    have ht := (mem_of_task? here).1
    refine ⟨finish_spares sound ht ⟨rfl, rfl, rfl, rfl, rfl⟩, fun x hx => ?_⟩
    cases hx
    exact Moves.has quiet sound (sound.has_slots ht)

theorem endEach_confined (endings : ∀ s a, Ending s tenant a state (one s a))
    (terminal : state.isTerminal = true) (sound : s.Sound) (attempts : List Attempt) :
    SparesPlaces tenant s (s.endEach one attempts).2 ∧
      ∀ x ∈ (s.endEach one attempts).1,
        (s.endEach one attempts).2.Has tenant x.id x.concurrencyStrategyIds := by
  induction attempts generalizing s with
  | nil => exact ⟨.refl tenant s, List.forall_mem_nil _⟩
  | cons a rest ih =>
    obtain ⟨spared, named⟩ := (endings s a).confined sound terminal
    have sound' : (one s a).2.Sound := Moves.sound ((endings s a).quiet terminal) sound
    obtain ⟨sparedRest, namedRest⟩ := ih sound'
    refine ⟨spared.trans sparedRest, fun x hx => ?_⟩
    rcases List.mem_append.mp hx with first | later
    · exact Moves.has (endEach_quiet endings terminal _ rest) sound' (named x (by simpa using first))
    · exact namedRest x later

/-- The tasks that an outcome names, each with the strategies named along with it. -/
def FailureOutcome.rows : FailureOutcome → List (TaskId × List StrategyId)
  | .ignored => []
  | .released t => [(t.id, t.concurrencyStrategyIds)]
  | .retried t => [(t.id, t.concurrencyStrategyIds), (t.failedAttempt.id, [])]

theorem failOne_confined {f : Failure} {outcome : FailureOutcome} (sound : s.Sound)
    (h : s.failOne now tenant f = .ok (outcome, s')) :
    SparesPlaces tenant s s' ∧ ∀ row ∈ outcome.rows, s'.Has tenant row.1 row.2 := by
  have quiet := failOne_quiet h
  unfold failOne at h
  split at h
  · cases h
    exact ⟨.refl tenant s, List.forall_mem_nil _⟩
  · rename_i t found
    obtain ⟨here, rfl, attempt, -⟩ := accepted?_eq_some found
    have ht := (mem_of_task? here).1
    have has := Moves.has quiet sound (sound.has_slots ht)
    split at h
    · obtain ⟨next, again, h⟩ := bind_ok h
      obtain ⟨deadline, _, again⟩ := bind_ok again
      cases again
      cases h
      refine ⟨retry_spares sound ht ⟨rfl, rfl, rfl, rfl, rfl⟩, ?_⟩
      have failed : f.task.id = t.id := by rw [← attempt]; rfl
      simp only [FailureOutcome.rows, List.forall_mem_cons, List.not_mem_nil, false_imp_iff,
        implies_true, and_true]
      exact ⟨has, failed ▸ has.without⟩
    · cases h
      refine ⟨finish_spares sound ht ⟨rfl, rfl, rfl, rfl, rfl⟩, ?_⟩
      exact List.forall_mem_singleton.mpr has

/-- The tasks that the failures of a batch name. -/
def failureRows (r : FailureResult) : List (TaskId × List StrategyId) :=
  (r.released.map FailureOutcome.released ++ r.retried.map FailureOutcome.retried).flatMap
    FailureOutcome.rows

theorem mem_failureRows_add {r : FailureResult} {o : FailureOutcome} {row : TaskId × List StrategyId}
    (h : row ∈ failureRows (FailureResult.add r o)) : row ∈ failureRows r ∨ row ∈ o.rows := by
  cases o with
  | ignored => exact Or.inl h
  | released t | retried t =>
    simp only [FailureResult.add, failureRows, List.map_append, List.map_singleton,
      List.flatMap_append, List.mem_append, List.flatMap_singleton] at h ⊢
    grind

theorem fail_confined {failures : List Failure} {r : FailureResult} (sound : s.Sound)
    (h : s.fail now tenant failures = .ok (r, s')) :
    SparesPlaces tenant s s' ∧ ∀ row ∈ failureRows r, s'.Has tenant row.1 row.2 := by
  refine (foldlM_ok (P := fun p : FailureResult × Store => p.2.Sound ∧ SparesPlaces tenant s p.2 ∧
    ∀ row ∈ failureRows p.1, p.2.Has tenant row.1 row.2) h
    ⟨sound, .refl tenant s, List.forall_mem_nil _⟩ ?_).2
  rintro ⟨r, s₁⟩ f - ⟨r', s₂⟩ ⟨sound, spared, named⟩ step
  obtain ⟨⟨outcome, s₃⟩, failed, step⟩ := bind_ok step
  cases step
  have quiet := failOne_quiet failed
  obtain ⟨sparedOne, namedOne⟩ := failOne_confined sound failed
  refine ⟨Moves.sound quiet sound, spared.trans sparedOne, fun row member => ?_⟩
  rcases mem_failureRows_add member with old | new
  · exact Moves.has quiet sound (named row old)
  · exact namedOne row new

theorem assignOne_confined {x : Assignment} {r : Option Attempt} (sound : s.Sound)
    (h : s.assignOne now tenant x = .ok (r, s')) :
    SparesPlaces tenant s s' ∧ ∀ a ∈ r, s'.Has tenant a.id [] := by
  have quiet := assignOne_quiet h
  simp only [assignOne] at h
  split at h
  · cases h
    exact ⟨.refl tenant s, by simp⟩
  · rename_i t found
    obtain ⟨here, rfl, attempt, -⟩ := accepted?_eq_some (Option.filter_eq_some_iff.mp found).1
    have ht := (mem_of_task? here).1
    obtain ⟨deadline, _, h⟩ := bind_ok h
    cases h
    refine ⟨start_spares sound ht ⟨rfl, rfl, rfl, rfl, rfl⟩, fun a ha => ?_⟩
    cases ha
    rw [← attempt]
    exact (Moves.has quiet sound (sound.has_task ht)).without

theorem assign_confined {assignments : List Assignment} {r : List Attempt} (sound : s.Sound)
    (h : s.assign now tenant assignments = .ok (r, s')) :
    SparesPlaces tenant s s' ∧ ∀ a ∈ r, s'.Has tenant a.id [] := by
  induction assignments generalizing s r with
  | nil =>
    cases h
    exact ⟨.refl tenant _, List.forall_mem_nil _⟩
  | cons x rest ih =>
    obtain ⟨⟨first, s₁⟩, assigned, h⟩ := bind_ok h
    obtain ⟨⟨others, s₂⟩, later, h⟩ := bind_ok h
    cases h
    obtain ⟨spared, named⟩ := assignOne_confined sound assigned
    have sound' : s₁.Sound := Moves.sound (assignOne_quiet assigned) sound
    obtain ⟨sparedRest, namedRest⟩ := ih sound' later
    refine ⟨spared.trans sparedRest, fun a ha => ?_⟩
    rcases List.mem_append.mp ha with here | there
    · exact Moves.has (assign_quiet later) sound' (named a (by simpa using here))
    · exact namedRest a there

/-! ### Strategies -/

theorem runStrategy_names {strategy : Strategy} (sound : s.Sound) :
    (∀ p ∈ (s.runStrategy tenant strategy).1.queued ++ (s.runStrategy tenant strategy).1.cancelled,
      (s.runStrategy tenant strategy).2.Has tenant p.task.id []) ∧
    ∀ σ ∈ (s.runStrategy tenant strategy).1.nextStrategyIds,
      (s.runStrategy tenant strategy).2.Offers tenant σ := by
  have moved : Moves s _ (s.runStrategy tenant strategy).2 := .one (.ran tenant strategy)
  have has (d) (hd : d ∈ s.decisions tenant (s.asRegistered strategy)) :
      s.Has tenant d.task.id [] ∧ ∀ σ, d.verdict = .deferred σ → s.Offers tenant σ := by
    obtain ⟨x, hx, task, owner, next⟩ := sound.decisions_own hd
    obtain ⟨t, ht, mine, attempt, _⟩ := sound.slot_current hx
    have id : x.task.id = t.id := by rw [← attempt]; rfl
    have has := sound.has_task ht
    rw [mine, owner, ← id, task] at has
    refine ⟨has.without, fun σ deferred => has.strategies σ ?_⟩
    obtain ⟨passed, way⟩ := (sound.standing t ht).next x (mem_slotsFor.mpr ⟨hx, id⟩)
    rw [way]
    exact List.mem_append_right _ (List.mem_cons_of_mem _ (next σ deferred))
  rw [sound.runStrategy_eq] at moved ⊢
  refine ⟨fun p hp => ?_, fun σ member => ?_⟩
  · rw [Admission.Summary.ofDecisions_queued, Admission.Summary.ofDecisions_cancelled,
      List.mem_append, Admission.Summary.mem_placed, Admission.Summary.mem_placed] at hp
    obtain ⟨d, hd, -, rfl⟩ | ⟨d, hd, -, rfl⟩ := hp
    · exact moved.has sound (has d hd).1
    · exact moved.has sound (has d hd).1
  · obtain ⟨d, hd, verdict⟩ := Admission.Summary.mem_nextStrategyIds.mp member
    obtain ⟨first, offers⟩ := has d hd
    have both : s.Has tenant d.task.id [σ] := ⟨first.task, by simpa using offers σ verdict⟩
    exact (moved.has sound both).strategies σ List.mem_cons_self

end Store

end WorkflowEngine
