import WorkflowEngine.Proofs.Store.Attempts
import WorkflowEngine.Proofs.Store.Verdicts

/-!
Slots that are given up and slots that are taken. When tasks are created, end, or wait again, what is
reported of them names every strategy whose slots change, with one exception: a task whose attempt was
evicted has no slot to give up when the attempt fails, and the report of its retry does not name the strategy
in which it waits then.
-/

namespace WorkflowEngine

open Fallible Store

/-- The strategies that are named in what became of failures. -/
def FailureResult.strategies (r : FailureResult) : List StrategyId :=
  r.released.flatMap (·.concurrencyStrategyIds) ++ r.retried.flatMap (·.concurrencyStrategyIds)

namespace Store

variable {s s' s'' : Store} {tenant : TenantId} {now : Instant} {t u : Task} {x : Slot} {i : TaskId}
  {σ : StrategyId} {named more : List StrategyId} {a : Attempt} {evicted : List Attempt}

theorem mem_heldBy : σ ∈ s.heldBy i ↔ ∃ x ∈ s.slotsFor i, x.strategyId = σ := by
  rw [heldBy, List.mem_mergeSort]
  exact List.mem_map

/-- The slot is in the first strategy of a task that has none. -/
def Readmits (s : Store) (tenant : TenantId) (x : Slot) : Prop :=
  ∃ t ∈ s.tasks, t.tenantId = tenant ∧ t.id = x.task.id ∧ t.state.isTerminal = false ∧
    s.slotsFor t.id = [] ∧ t.concurrencyStrategyIds.head? = some x.strategyId

/-- Strategies whose slots have changed are named, but for slots of tasks that had none. -/
structure Turnover (tenant : TenantId) (s s' : Store) (named : List StrategyId) : Prop where
  lost : ∀ x ∈ s.slots, x ∉ s'.slots → x.strategyId ∈ named
  taken : ∀ x ∈ s'.slots, x ∉ s.slots → x.strategyId ∈ named ∨ s.Readmits tenant x
  earlier : ∀ x, s'.Readmits tenant x → s.Readmits tenant x

namespace Turnover

theorem mono (turnover : Turnover tenant s s' named) (sub : ∀ σ ∈ named, σ ∈ more) :
    Turnover tenant s s' more :=
  ⟨fun x hx gone => sub _ (turnover.lost x hx gone),
    fun x hx new => (turnover.taken x hx new).imp_left (sub _), turnover.earlier⟩

theorem trans (first : Turnover tenant s s' named) (second : Turnover tenant s' s'' more) :
    Turnover tenant s s'' (named ++ more) := by
  refine ⟨fun x hx gone => ?_, fun x hx new => ?_, fun x h => first.earlier x (second.earlier x h)⟩
  · by_cases between : x ∈ s'.slots
    · exact List.mem_append_right _ (second.lost x between gone)
    · exact List.mem_append_left _ (first.lost x hx between)
  · by_cases between : x ∈ s'.slots
    · exact (first.taken x between new).imp_left (List.mem_append_left _)
    · exact (second.taken x hx between).imp (List.mem_append_right _) (first.earlier x)

theorem same (tasks : s'.tasks = s.tasks) (slots : s'.slots = s.slots) : Turnover tenant s s' named := by
  refine ⟨fun x hx gone => absurd (slots ▸ hx) gone, fun x hx new => absurd (slots ▸ hx) new, ?_⟩
  rintro x ⟨t, ht, owner, id, live, bare, first⟩
  exact ⟨t, tasks ▸ ht, owner, id, live, by rwa [slotsFor, ← slots], first⟩

/-- Where only one task has changed, only its slots have. -/
theorem of_only (only : OnlyTask i s s')
    (lost : ∀ x ∈ s.slotsFor i, x ∉ s'.slotsFor i → x.strategyId ∈ named)
    (taken : ∀ x ∈ s'.slotsFor i, x ∉ s.slotsFor i → x.strategyId ∈ named ∨ s.Readmits tenant x)
    (housed : ∀ t ∈ s'.tasks, t.id = i → t.state.isTerminal = false → s'.slotsFor i = [] →
      t.concurrencyStrategyIds = []) : Turnover tenant s s' named := by
  have other {x : Slot} (mine : x.task.id ≠ i) : x ∈ s'.slots ↔ x ∈ s.slots := by
    have kept := only.slots _ mine
    constructor
    · exact fun hx => (mem_slotsFor.mp (kept ▸ mem_slotsFor.mpr ⟨hx, rfl⟩)).1
    · exact fun hx => (mem_slotsFor.mp (kept.symm ▸ mem_slotsFor.mpr ⟨hx, rfl⟩)).1
  refine ⟨fun x hx gone => ?_, fun x hx new => ?_, ?_⟩
  · by_cases mine : x.task.id = i
    · exact lost x (mem_slotsFor.mpr ⟨hx, mine⟩) fun kept => gone (mem_slotsFor.mp kept).1
    · exact absurd ((other mine).mpr hx) gone
  · by_cases mine : x.task.id = i
    · exact taken x (mem_slotsFor.mpr ⟨hx, mine⟩) fun kept => new (mem_slotsFor.mp kept).1
    · exact absurd ((other mine).mp hx) new
  · rintro x ⟨t, ht, owner, id, live, bare, first⟩
    by_cases mine : t.id = i
    · rw [housed t ht mine live (mine ▸ bare)] at first
      cases first
    · exact ⟨t, (only.tasks t mine).mp ht, owner, id, live, (only.slots _ mine).symm.trans bare, first⟩

end Turnover

/-! ### Attempts that end -/

theorem Ending.turnover {state : TaskState} {p : Option ReleasedTask × Store}
    (ending : Ending s tenant a state p) (terminal : state.isTerminal = true) :
    Turnover tenant s p.2 (p.1.toList.flatMap (·.concurrencyStrategyIds)) := by
  cases ending with
  | passed => exact .same rfl rfl
  | @ended t found schedule =>
    have only : OnlyTask t.id s (s.finish (closed t state schedule)).2 :=
      cleared_only (t := t) (u := closed t state schedule) ⟨rfl, rfl, rfl, rfl, rfl⟩
    have bare : (s.finish (closed t state schedule)).2.slotsFor t.id = [] := release_placeless.slots
    refine .of_only only (fun x hx _ => ?_) (fun x hx => ?_) fun u hu mine live => ?_
    · rw [Option.toList_some, List.flatMap_singleton]
      exact mem_heldBy.mpr ⟨x, hx, rfl⟩
    · rw [bare] at hx
      cases hx
    · rcases mem_setTask.mp hu with ⟨rfl, -⟩ | ⟨-, other⟩
      · exact absurd (terminal.symm.trans live) nofun
      · exact absurd mine other

theorem endEach_turnover {state : TaskState} {one : Store → Attempt → Option ReleasedTask × Store}
    (endings : ∀ s a, Ending s tenant a state (one s a)) (terminal : state.isTerminal = true)
    (s : Store) (as : List Attempt) : Turnover tenant s (s.endEach one as).2
      ((s.endEach one as).1.flatMap (·.concurrencyStrategyIds)) := by
  induction as generalizing s with
  | nil => exact .same rfl rfl
  | cons a rest ih =>
    rw [endEach, List.flatMap_append]
    exact ((endings s a).turnover terminal).trans (ih _)

theorem complete_turnover (s : Store) (tenant : TenantId) (as : List Attempt) :
    Turnover tenant s (s.complete tenant as).2
      ((s.complete tenant as).1.flatMap (·.concurrencyStrategyIds)) := by
  rw [complete_eq]
  exact endEach_turnover (fun s a => s.completeOne_ending tenant a) rfl s as

theorem cancel_turnover (s : Store) (tenant : TenantId) (as : List Attempt) :
    Turnover tenant s (s.cancel tenant as).2
      ((s.cancel tenant as).1.flatMap (·.concurrencyStrategyIds)) := by
  rw [cancel_eq]
  exact endEach_turnover (fun s a => s.cancelOne_ending tenant a) rfl s as

/-! ### Attempts that wait -/

/-- A task without a place comes to wait in the first of its strategies. -/
theorem Placeless.enqueue_slotsFor (placeless : s.Placeless t.id) :
    (∀ x ∈ (s.enqueue t).slotsFor t.id, t.concurrencyStrategyIds.head? = some x.strategyId) ∧
      ((s.enqueue t).slotsFor t.id = [] → t.concurrencyStrategyIds = []) := by
  unfold enqueue
  split
  · rename_i unlimited
    refine ⟨fun x hx => ?_, fun _ => unlimited⟩
    rw [insertQueueItem_slotsFor, placeless.slots] at hx
    cases hx
  · rename_i first next limited
    have absent : ∀ x ∈ s.slotsFor t.attempt.id, x.strategyId ≠ first := by
      rw [show t.attempt.id = t.id from rfl, placeless.slots]
      exact nofun
    have given := insertSlot_slotsFor t.tenantId t.attempt (t.concurrencyKeys.headD "") t.queue next absent
    rw [show t.attempt.id = t.id from rfl, placeless.slots] at given
    rw [given, limited]
    refine ⟨fun x hx => ?_, nofun⟩
    rw [List.mem_singleton.mp hx]
    rfl

/-- A task that holds slots holds the first one it was given. -/
theorem Standing.head_held (standing : s.Standing t) (first : t.concurrencyStrategyIds.head? = some σ) :
    σ ∈ s.heldBy t.id ∨ s.slotsFor t.id = [] := by
  have way := standing.strategies
  cases held : s.slotsFor t.id with
  | nil => exact Or.inr rfl
  | cons x rest =>
    rw [held, List.map_cons] at way
    obtain ⟨later, way⟩ := way
    rw [← way] at first
    refine Or.inl (mem_heldBy.mpr ⟨x, ?_, Option.some.inj first⟩)
    rw [held]
    exact List.mem_cons_self

/-- A task gives up all its slots and is given the first one anew. -/
theorem retry_turnover (sound : s.Sound) (ht : t ∈ s.tasks) (owner : t.tenantId = tenant)
    (live : t.state.isTerminal = false) (keeps : t.Keeps u) :
    Turnover tenant s (((s.setTask u).release t.id).enqueue u) (s.heldBy t.id) := by
  have cleared : OnlyTask t.id s ((s.setTask u).release t.id) := (setTask_keeps_only keeps).trans release_only
  have only := cleared.trans (keeps.id ▸ enqueue_only)
  have placeless : ((s.setTask u).release t.id).Placeless u.id := keeps.id ▸ release_placeless
  obtain ⟨slots, housed⟩ := placeless.enqueue_slotsFor
  rw [keeps.id, keeps.strategies] at slots housed
  refine .of_only only (fun x hx _ => mem_heldBy.mpr ⟨x, hx, rfl⟩) (fun x hx _ => ?_) ?_
  · have first := slots x hx
    refine ((sound.standing t ht).head_held first).imp_right fun bare => ?_
    exact ⟨t, ht, owner, (mem_slotsFor.mp hx).2.symm, live, bare, first⟩
  · intro v hv mine _ bare
    rw [enqueue_tasks] at hv
    rcases mem_setTask.mp hv with ⟨rfl, -⟩ | ⟨-, other⟩
    · exact keeps.strategies.trans (housed bare)
    · exact absurd (mine.trans keeps.id.symm) other

/-- The strategies that are named in what became of a failure. -/
def FailureOutcome.strategies : FailureOutcome → List StrategyId
  | .ignored => []
  | .released t => t.concurrencyStrategyIds
  | .retried t => t.concurrencyStrategyIds

theorem mem_strategies_add {r : FailureResult} {o : FailureOutcome}
    (h : σ ∈ r.strategies ++ o.strategies) : σ ∈ (FailureResult.add r o).strategies := by
  cases o with
  | ignored => exact (List.mem_append.mp h).resolve_right List.not_mem_nil
  | released t | retried t =>
    simp only [FailureResult.strategies, FailureOutcome.strategies, FailureResult.add,
      List.flatMap_append, List.flatMap_singleton, List.mem_append] at h ⊢
    tauto

theorem failOne_turnover {f : Failure} {o : FailureOutcome} (sound : s.Sound)
    (h : s.failOne now tenant f = .ok (o, s')) : Turnover tenant s s' o.strategies := by
  unfold failOne at h
  split at h
  · cases h
    exact .same rfl rfl
  · rename_i t found
    obtain ⟨here, owner, -, live⟩ := accepted?_eq_some found
    have ht := (mem_of_task? here).1
    split at h
    · obtain ⟨next, again, h⟩ := bind_ok h
      obtain ⟨deadline, _, again⟩ := bind_ok again
      cases again
      cases h
      exact retry_turnover sound ht owner live ⟨rfl, rfl, rfl, rfl, rfl⟩
    · cases h
      have turnover := (Ending.ended found t.scheduleTimeoutAt : Ending s tenant _ .failed _).turnover rfl
      rw [Option.toList_some, List.flatMap_singleton] at turnover
      exact turnover

theorem fail_turnover {failures : List Failure} {r : FailureResult} (sound : s.Sound)
    (h : s.fail now tenant failures = .ok (r, s')) : Turnover tenant s s' r.strategies := by
  have kept := foldlM_ok (P := fun p : FailureResult × Store => p.2.Sound ∧
    Turnover tenant s p.2 p.1.strategies) h ⟨sound, .same rfl rfl⟩ ?_
  · exact kept.2
  · rintro ⟨r, s₁⟩ f - ⟨r', s₂⟩ ⟨sound₁, before⟩ step
    obtain ⟨⟨o, s₃⟩, failed, step⟩ := bind_ok step
    cases step
    refine ⟨(failOne_quiet failed).sound sound₁, ?_⟩
    exact (before.trans (failOne_turnover sound₁ failed)).mono fun _ => mem_strategies_add

/-! ### Tasks that are new -/

/-- The strategies of the tasks that wait when they are created. -/
def awaited (ts : List Task) : List StrategyId :=
  (ts.filter (·.initialState == .queued)).flatMap (·.concurrencyStrategyIds)

theorem insertTask_turnover {w : RegisteredWorkflow} {step : Step} {n : NewTask} (sound : s.Sound)
    (free : ∀ p ∈ n.forced, p.1 ≠ .queued) (h : s.insertTask w step n now = .ok (t, s')) :
    Turnover tenant s s' (awaited [t]) := by
  obtain ⟨created, result⟩ := insertTask_ok free h
  have fresh : s.Placeless t.id := created.id ▸ sound.fresh_placeless
  have nothing {x : Slot} (hx : x ∈ s.slotsFor t.id) : False := by
    rw [fresh.slots] at hx
    cases hx
  rcases result with ⟨waits, rfl⟩ | ⟨ended, rfl⟩
  · have placeless : (s.addTask t).Placeless t.id := ⟨fresh.slots, fresh.items⟩
    obtain ⟨slots, housed⟩ := placeless.enqueue_slotsFor
    have queued : t.initialState = .queued := by
      have state := created.state.symm.trans waits
      cases initial : t.initialState <;> rw [initial] at state <;> first | rfl | cases state
    have named : awaited [t] = t.concurrencyStrategyIds := by simp [awaited, queued]
    refine .of_only ((addTask_only created.id).trans enqueue_only) (fun x hx _ => (nothing hx).elim)
      (fun x hx _ => Or.inl ?_) fun u hu mine _ bare => ?_
    · rw [named]
      exact List.mem_of_head? (slots x hx)
    · rw [enqueue_tasks] at hu
      rw [created.eq_of_id sound hu mine]
      exact housed bare
  · refine .of_only (addTask_only created.id) (fun x hx _ => (nothing hx).elim)
      (fun x hx _ => (nothing hx).elim) fun u hu mine live _ => ?_
    rw [created.eq_of_id sound hu mine, ended] at live
    cases live

theorem creates_turnover {ids : List ExternalId} {c c₁ : Creation} (sound : c.store.Sound)
    (made : Creation.Creates tenant ids c c₁) : Turnover tenant c.store c₁.store (awaited c₁.tasks) := by
  induction made with
  | none => exact .same rfl rfl
  | @other c₁ c₂ _ alike _ tasks ih =>
    rw [tasks]
    exact (ih.trans (.same alike.tasks alike.slots : Turnover tenant _ _ [])).mono fun σ h => by simpa using h
  | @task c₁ c₂ _ _ _ _ t before source inserted _ tasks _ ih =>
    have sound₁ := before.quiet.sound sound
    rw [tasks, awaited, List.filter_append, List.flatMap_append]
    exact ih.trans (insertTask_turnover sound₁ source.free inserted)

/-! ### Tasks that have no slot -/

/-- A task that has strategies, and has not ended, has a slot unless its attempt was evicted. -/
def Lodged (evicted : List Attempt) (s : Store) : Prop :=
  ∀ t ∈ s.tasks, t.state.isTerminal = false → s.slotsFor t.id = [] →
    t.concurrencyStrategyIds = [] ∨ t.attempt ∈ evicted

theorem Lodged.mono {gone : List Attempt} (lodged : Lodged evicted s) : Lodged (evicted ++ gone) s :=
  fun t ht live bare => (lodged t ht live bare).imp_right (List.mem_append_left gone)

theorem Lodged.of_parts (lodged : Lodged evicted s) (tasks : s'.tasks = s.tasks) (slots : s'.slots = s.slots) :
    Lodged evicted s' := by
  intro t ht live bare
  rw [slotsFor, slots] at bare
  exact lodged t (tasks ▸ ht) live bare

theorem Lodged.of_only (lodged : Lodged evicted s) (only : OnlyTask i s s')
    (housed : ∀ t ∈ s'.tasks, t.id = i → t.state.isTerminal = false → s'.slotsFor i = [] →
      t.concurrencyStrategyIds = [] ∨ t.attempt ∈ evicted) : Lodged evicted s' := by
  intro t ht live bare
  by_cases mine : t.id = i
  · exact housed t ht mine live (mine ▸ bare)
  · exact lodged t ((only.tasks t mine).mp ht) live ((only.slots _ mine).symm.trans bare)

/-- A strategy that evicts an attempt says so. -/
theorem runStrategy_lodged (sound : s.Sound) (lodged : Lodged evicted s) (tenant : TenantId)
    (strategy : Strategy) :
    Lodged (evicted ++ (s.runStrategy tenant strategy).1.cancelled.map (·.task))
      (s.runStrategy tenant strategy).2 := by
  have concluded := sound.run_concluded tenant strategy
  intro t ht live bare
  rw [runStrategy_tasks] at ht
  cases held : s.slotsFor t.id with
  | nil => exact (lodged t ht live held).imp_right (List.mem_append_left _)
  | cons x rest =>
    have mine : x ∈ s.slotsFor t.id := held ▸ List.mem_cons_self
    obtain ⟨hx, id⟩ := mem_slotsFor.mp mine
    have gone {y : Slot} (hy : y ∈ (s.runStrategy tenant strategy).2.slots) : y.task.id ≠ t.id := by
      intro same
      have member := mem_slotsFor.mpr ⟨hy, same⟩
      rw [bare] at member
      cases member
    rcases concluded.slot_before sound hx with kept | ⟨d, hd, verdict, about⟩ | ⟨-, filled⟩
    · exact absurd id (gone kept)
    · refine Or.inr (List.mem_append_right _ ?_)
      rw [sound.runStrategy_eq, ← ((sound.standing t ht).own x mine).2.1, ← about]
      exact Admission.Summary.mem_cancelled.mpr ⟨d, hd, verdict, rfl⟩
    · exact (gone filled id).elim

theorem Move.lodged {more : List Attempt} (move : Move s more s') (sound : s.Sound)
    (lodged : Lodged evicted s) : Lodged (evicted ++ more) s' := by
  cases move with
  | @created _ _ _ _ _ t _ _ free done =>
    obtain ⟨created, result⟩ := insertTask_ok free done
    have fresh : s.Placeless t.id := created.id ▸ sound.fresh_placeless
    rcases result with ⟨_, rfl⟩ | ⟨ended, rfl⟩
    · have placeless : (s.addTask t).Placeless t.id := ⟨fresh.slots, fresh.items⟩
      refine (lodged.of_only ((addTask_only created.id).trans enqueue_only) ?_).mono
      intro u hu mine _ bare
      rw [enqueue_tasks] at hu
      rw [created.eq_of_id sound hu mine]
      exact Or.inl (placeless.enqueue_slotsFor.2 bare)
    · refine (lodged.of_only (addTask_only created.id) fun u hu mine live _ => ?_).mono
      rw [created.eq_of_id sound hu mine, ended] at live
      cases live
  | @ended t u ht _ keeps ends =>
    refine (lodged.of_only (cleared_only keeps) fun v hv mine live _ => ?_).mono
    rcases mem_setTask.mp hv with ⟨rfl, -⟩ | ⟨-, other⟩
    · exact absurd (ends.symm.trans live) nofun
    · exact absurd (mine.trans keeps.id.symm) other
  | @retried t u ht _ keeps _ =>
    have only : OnlyTask t.id s (((s.setTask u).release u.id).enqueue u) :=
      (cleared_only keeps).trans (keeps.id ▸ enqueue_only)
    have placeless : ((s.setTask u).release u.id).Placeless u.id := release_placeless
    refine (lodged.of_only only fun v hv mine live bare => ?_).mono
    rw [enqueue_tasks] at hv
    rcases mem_setTask.mp hv with ⟨rfl, -⟩ | ⟨-, other⟩
    · exact Or.inl (placeless.enqueue_slotsFor.2 (mine ▸ bare))
    · exact absurd (mine.trans keeps.id.symm) other
  | @started t u ht keeps attempt _ waits =>
    obtain ⟨q, hq, own⟩ := waits
    have queued := ((sound.standing t ht).item q hq own).2.1
    refine (lodged.of_only (start_only keeps) fun v hv mine live bare => ?_).mono
    rcases mem_setTask.mp hv with ⟨rfl, -⟩ | ⟨-, other⟩
    · rw [keeps.strategies, attempt]
      exact lodged t ht (by rw [queued]; rfl) bare
    · exact absurd (mine.trans keeps.id.symm) other
  | ran tenant strategy => exact runStrategy_lodged sound lodged tenant strategy
  | registered => exact (lodged.of_parts rfl rfl).mono
  | refreshed =>
    rw [refreshActive_eq]
    exact (lodged.of_parts rfl rfl).mono
  | other alike => exact (lodged.of_parts alike.tasks alike.slots).mono

theorem Moves.lodged {s₀ : Store} (moves : Moves s₀ evicted s) (sound : s₀.Sound) (lodged : Lodged [] s₀) :
    Lodged evicted s := by
  induction moves with
  | none => exact lodged
  | more before move ih => exact move.lodged (before.sound sound) ih

theorem Reachable.lodged (reached : Reachable evicted s) : Lodged evicted s := by
  obtain ⟨internalRetries, moves⟩ := reached.moves
  exact moves.lodged (sound_empty internalRetries) (List.forall_mem_nil _)

/-- The slot is in the first strategy of a task whose attempt was evicted. -/
def Regains (evicted : List Attempt) (s : Store) (tenant : TenantId) (x : Slot) : Prop :=
  ∃ t ∈ s.tasks, t.tenantId = tenant ∧ t.id = x.task.id ∧ t.state.isTerminal = false ∧
    t.attempt ∈ evicted ∧ s.slotsFor t.id = [] ∧ t.concurrencyStrategyIds.head? = some x.strategyId

theorem Lodged.regains (lodged : Lodged evicted s) (readmits : s.Readmits tenant x) :
    s.Regains evicted tenant x := by
  obtain ⟨t, ht, owner, id, live, bare, first⟩ := readmits
  refine ⟨t, ht, owner, id, live, (lodged t ht live bare).resolve_left fun none => ?_, bare, first⟩
  rw [none] at first
  cases first

end Store

end WorkflowEngine
