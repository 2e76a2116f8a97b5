import WorkflowEngine.Proofs.Store.Eviction
import WorkflowEngine.Proofs.Store.Verdicts

/-!
The way of an attempt is one way. It waits for its strategies, then in its queue, then it is gone, and it
never comes back to where it was: once it has been in its queue all slots of its task are filled, or the task
has moved on to a later attempt.
-/

namespace WorkflowEngine.Store

open Fallible
open Admission (Decision)

variable {s s' s'' : Store} {a : Attempt} {t u : Task} {i : TaskId} {now : Instant} {tenant : TenantId}
  {d : Decision} {ds : List Decision} {σ : StrategyId} {c : Command} {more : List Attempt}

/-! ### Where an attempt cannot come back from -/

/-- The attempt does not wait for a strategy: all slots of its task are filled, unless the task has moved
on to a later attempt. -/
def Settled (s : Store) (a : Attempt) : Prop :=
  ∃ t ∈ s.tasks, t.id = a.id ∧ (a.retryCount < t.retryCount ∨
    (a.retryCount = t.retryCount ∧ ∀ x ∈ s.slotsFor a.id, x.filled = true))

/-- The attempt does not wait for a worker either. -/
def Gone (s : Store) (a : Attempt) : Prop := s.Settled a ∧ ¬ s.InQueue a

/-- The queue has one place for a task. -/
def Filed (s : Store) : Prop := s.queueItems.Pairwise fun q r => q.task.id < r.task.id

/-- No attempt has come back to where it was. -/
structure Onward (s s' : Store) : Prop where
  settled : ∀ a, s.Settled a → s'.Settled a
  queue : ∀ q ∈ s'.queueItems, q ∈ s.queueItems ∨ ¬ s.Settled q.task
  filed : s.Filed → s'.Filed

theorem Onward.gone (onward : Onward s s') (gone : s.Gone a) : s'.Gone a := by
  refine ⟨onward.settled a gone.1, fun ⟨q, hq, mine⟩ => ?_⟩
  rcases onward.queue q hq with old | waiting
  · exact gone.2 ⟨q, old, mine⟩
  · exact waiting (mine ▸ gone.1)

/-- The queue has lost some of its items at most. -/
theorem Onward.fewer (settled : ∀ a, s.Settled a → s'.Settled a)
    (items : s'.queueItems.Sublist s.queueItems) : Onward s s' :=
  ⟨settled, fun _ hq => Or.inl (items.subset hq), fun filed => filed.sublist items⟩

theorem Onward.refl (s : Store) : Onward s s := .fewer (fun _ => id) (.refl _)

theorem Onward.same (tasks : s'.tasks = s.tasks) (slots : s'.slots = s.slots)
    (items : s'.queueItems = s.queueItems) : Onward s s' := by
  refine .fewer (fun a settled => ?_) (items ▸ .refl _)
  rwa [Settled, slotsFor, tasks, slots]

theorem Onward.trans (first : Onward s s') (second : Onward s' s'') : Onward s s'' := by
  refine ⟨fun a settled => second.settled a (first.settled a settled), fun q hq => ?_,
    fun filed => second.filed (first.filed filed)⟩
  rcases second.queue q hq with old | waiting
  · exact first.queue q old
  · exact Or.inr fun settled => waiting (first.settled q.task settled)

/-- The current attempt of a task is settled if the slots of the task are filled, and only then. -/
theorem Sound.settled_iff (sound : s.Sound) (ht : t ∈ s.tasks) :
    s.Settled t.attempt ↔ ∀ x ∈ s.slotsFor t.id, x.filled = true := by
  constructor
  · rintro ⟨v, hv, same, less | ⟨_, filled⟩⟩
    · rw [sound.ordered.eq_of_id hv ht same] at less
      exact absurd less (Int.lt_irrefl _)
    · exact filled
  · exact fun filled => ⟨t, ht, rfl, Or.inr ⟨rfl, filled⟩⟩

/-- What is in the queue has passed its strategies. -/
theorem Sound.queued_settled (sound : s.Sound) (queued : s.InQueue a) : s.Settled a := by
  obtain ⟨q, hq, rfl⟩ := queued
  obtain ⟨t, ht, owner⟩ := sound.itemOwner q hq
  obtain ⟨rfl, -, -, filled⟩ := (sound.standing t ht).item q hq owner.symm
  exact (sound.settled_iff ht).mpr filled

/-! ### One task -/

/-- If one task changes, attempts stay settled as long as it moves on to a later attempt or fills its
slots. -/
theorem settled_of_only (only : OnlyTask i s s')
    (turn : ∀ t ∈ s.tasks, t.id = i → ∃ u ∈ s'.tasks, u.id = i ∧ (t.retryCount < u.retryCount ∨
      (t.retryCount = u.retryCount ∧
        ((∀ x ∈ s.slotsFor i, x.filled = true) → ∀ x ∈ s'.slotsFor i, x.filled = true))))
    (a : Attempt) (settled : s.Settled a) : s'.Settled a := by
  obtain ⟨t, ht, id, past⟩ := settled
  by_cases mine : a.id = i
  · obtain ⟨u, hu, same, later⟩ := turn t ht (id.trans mine)
    refine ⟨u, hu, same.trans mine.symm, ?_⟩
    rw [mine] at past ⊢
    rcases past with less | ⟨equal, filled⟩
    · refine Or.inl ?_
      rcases later with more | ⟨more, _⟩ <;> omega
    · rcases later with more | ⟨more, kept⟩
      · exact Or.inl (by omega)
      · exact Or.inr ⟨equal.trans more, kept filled⟩
  · refine ⟨t, (only.tasks t (by rwa [id])).mpr ht, id, ?_⟩
    rwa [only.slots a.id mine]

theorem finish_onward (sound : s.Sound) (ht : t ∈ s.tasks) (keeps : t.Keeps u)
    (attempt : u.retryCount = t.retryCount) : Onward s ((s.setTask u).release u.id) := by
  refine .fewer (settled_of_only (cleared_only keeps) fun v hv same => ?_) List.filter_sublist
  obtain rfl := sound.ordered.eq_of_id hv ht same
  refine ⟨u, mem_setTask.mpr (Or.inl ⟨rfl, v, ht, keeps.id.symm⟩), keeps.id, Or.inr ⟨attempt.symm, ?_⟩⟩
  rw [← keeps.id, release_placeless.slots]
  exact fun _ => List.forall_mem_nil _

theorem enqueue_queue {q : QueueItem} (hq : q ∈ (s.enqueue t).queueItems) :
    q ∈ s.queueItems ∨ q.task = t.attempt := by
  unfold enqueue at hq
  split at hq
  · refine (mem_insertQueueItem hq).symm.imp_right ?_
    rintro rfl
    rfl
  · exact Or.inl hq

theorem enqueue_filed (filed : s.Filed) : (s.enqueue t).Filed := by
  unfold enqueue
  split
  · exact Ascending.put_key_pairwise filed
  · exact filed

theorem retry_onward (sound : s.Sound) (ht : t ∈ s.tasks) (keeps : t.Keeps u)
    (next : u.retryCount = t.retryCount + 1) :
    Onward s (((s.setTask u).release u.id).enqueue u) := by
  have here : u ∈ (((s.setTask u).release u.id).enqueue u).tasks := by
    rw [enqueue_tasks]
    exact mem_setTask.mpr (Or.inl ⟨rfl, t, ht, keeps.id.symm⟩)
  have only : OnlyTask t.id s (((s.setTask u).release u.id).enqueue u) :=
    (cleared_only keeps).trans (keeps.id ▸ enqueue_only)
  refine ⟨settled_of_only only fun v hv same => ?_, fun q hq => ?_,
    fun filed => enqueue_filed (filed.sublist List.filter_sublist)⟩
  · obtain rfl := sound.ordered.eq_of_id hv ht same
    exact ⟨u, here, keeps.id, Or.inl (by omega)⟩
  · rcases enqueue_queue hq with old | mine
    · exact Or.inl (mem_release_queueItems.mp old).1
    · rw [mine]
      refine Or.inr ?_
      rintro ⟨v, hv, same, past⟩
      obtain rfl := sound.ordered.eq_of_id hv ht (same.trans keeps.id)
      have count : u.attempt.retryCount = v.retryCount + 1 := next
      rcases past with less | ⟨equal, _⟩ <;> omega

theorem insertTask_onward {w : RegisteredWorkflow} {step : Step} {n : NewTask} (sound : s.Sound)
    (free : ∀ p ∈ n.forced, p.1 ≠ .queued) (h : s.insertTask w step n now = .ok (t, s')) :
    Onward s s' := by
  obtain ⟨created, result⟩ := insertTask_ok free h
  have only := addTask_only created.id
  have unknown : ∀ v ∈ s.tasks, v.id ≠ t.id := by
    intro v hv same
    have known := sound.latest v hv
    rw [same, created.id] at known
    exact absurd known (Int.not_le.mpr (Int.lt_succ _))
  rcases result with ⟨_, rfl⟩ | ⟨_, rfl⟩
  · refine ⟨settled_of_only (only.trans enqueue_only) fun v hv same => absurd same (unknown v hv),
      fun q hq => ?_, fun filed => enqueue_filed filed⟩
    refine (enqueue_queue (s := s.addTask t) hq).imp_right fun mine => ?_
    rw [mine]
    exact fun ⟨v, hv, same, _⟩ => unknown v hv same
  · exact .fewer (settled_of_only only fun v hv same => absurd same (unknown v hv)) (.refl _)

/-! ### Attempts -/

variable {state : TaskState} {p : Option ReleasedTask × Store}
  {one : Store → Attempt → Option ReleasedTask × Store}

theorem Ending.onward (ending : Ending s tenant a state p) (sound : s.Sound) : Onward s p.2 := by
  cases ending with
  | passed => exact .refl s
  | ended found => exact finish_onward sound (accepted?_task found).1 ⟨rfl, rfl, rfl, rfl, rfl⟩ rfl

theorem Ending.fewer (ending : Ending s tenant a state p) : p.2.queueItems.Sublist s.queueItems := by
  cases ending with
  | passed => exact .refl _
  | ended => exact List.filter_sublist

theorem endEach_onward (endings : ∀ s a, Ending s tenant a state (one s a))
    (terminal : state.isTerminal = true) (sound : s.Sound) (attempts : List Attempt) :
    Onward s (s.endEach one attempts).2 := by
  induction attempts generalizing s with
  | nil => exact .refl s
  | cons a rest ih =>
    exact ((endings s a).onward sound).trans (ih (Moves.sound ((endings s a).quiet terminal) sound))

theorem nextAttempt_keeps {isAppError : Bool} (next : nextAttempt t isAppError now = .ok u) :
    t.Keeps u := by
  obtain ⟨deadline, _, next⟩ := bind_ok next
  cases next
  exact ⟨rfl, rfl, rfl, rfl, rfl⟩

theorem failOne_onward {f : Failure} {outcome : FailureOutcome} (sound : s.Sound)
    (h : s.failOne now tenant f = .ok (outcome, s')) : Onward s s' := by
  unfold failOne at h
  split at h
  · cases h
    exact .refl s
  · rename_i t found
    have ht := (accepted?_task found).1
    split at h
    · obtain ⟨next, again, h⟩ := bind_ok h
      cases h
      have keeps := nextAttempt_keeps again
      have onward := retry_onward sound ht keeps (nextAttempt_counts again).2.2.1
      rwa [keeps.id] at onward
    · cases h
      exact finish_onward (u := closed t .failed t.scheduleTimeoutAt) sound ht ⟨rfl, rfl, rfl, rfl, rfl⟩ rfl

theorem fail_onward {failures : List Failure} {r : FailureResult} (sound : s.Sound)
    (h : s.fail now tenant failures = .ok (r, s')) : Onward s s' := by
  refine (foldlM_ok (P := fun p : FailureResult × Store => p.2.Sound ∧ Onward s p.2) h
    ⟨sound, .refl s⟩ ?_).2
  rintro ⟨r, s₁⟩ f - ⟨r', s₂⟩ ⟨sound, before⟩ step
  obtain ⟨⟨outcome, s₃⟩, failed, step⟩ := bind_ok step
  cases step
  exact ⟨Moves.sound (failOne_quiet failed) sound, before.trans (failOne_onward sound failed)⟩

theorem assignOne_gone {x : Assignment} {r : Option Attempt} (sound : s.Sound)
    (h : s.assignOne now tenant x = .ok (r, s')) :
    Onward s s' ∧ s'.queueItems.Sublist s.queueItems ∧ ∀ a ∈ r.toList, ¬ s.Gone a ∧ s'.Gone a := by
  simp only [assignOne] at h
  split at h
  · cases h
    exact ⟨.refl s, .refl _, List.forall_mem_nil _⟩
  · rename_i t found
    simp only [Option.filter_eq_some_iff, Bool.and_eq_true, Option.any_eq_true, beq_iff_eq] at found
    obtain ⟨found, ⟨q, listed, named, _⟩, _⟩ := found
    obtain ⟨here, _, attempt, _⟩ := accepted?_eq_some found
    have ht := (mem_of_task? here).1
    have queued : s.InQueue x.task := ⟨q, List.mem_of_find?_eq_some listed, named⟩
    obtain ⟨deadline, _, h⟩ := bind_ok h
    cases h
    let u : Task := { t with
      state := .running
      workerId := some x.worker
      scheduleTimeoutAt := none
      timeoutAt := some deadline }
    have keeps : t.Keeps u := ⟨rfl, rfl, rfl, rfl, rfl⟩
    have onward : Onward s (s.start u) :=
      .fewer (settled_of_only (start_only keeps) fun v hv same => by
        obtain rfl := sound.ordered.eq_of_id hv ht same
        exact ⟨u, mem_setTask.mpr (Or.inl ⟨rfl, v, ht, rfl⟩), rfl, Or.inr ⟨rfl, id⟩⟩) List.filter_sublist
    refine ⟨onward, List.filter_sublist, List.forall_mem_singleton.mpr ⟨fun gone => gone.2 queued,
      onward.settled _ (sound.queued_settled queued), ?_⟩⟩
    rintro ⟨q', hq', mine⟩
    have left := (List.mem_filter.mp hq').2
    rw [mine, ← attempt] at left
    simp [Task.attempt] at left

/-- Attempts that are handed out were not gone before, and are gone then. -/
theorem assign_gone {assignments : List Assignment} {r : List Attempt} (sound : s.Sound)
    (h : s.assign now tenant assignments = .ok (r, s')) :
    Onward s s' ∧ (∀ a ∈ r, ¬ s.Gone a ∧ s'.Gone a) ∧ r.Nodup := by
  induction assignments generalizing s r with
  | nil =>
    cases h
    exact ⟨.refl _, List.forall_mem_nil _, .nil⟩
  | cons x rest ih =>
    obtain ⟨⟨first, s₁⟩, assigned, h⟩ := bind_ok h
    obtain ⟨⟨others, s₂⟩, later, h⟩ := bind_ok h
    cases h
    obtain ⟨onward, -, now'⟩ := assignOne_gone sound assigned
    obtain ⟨onward', then', once⟩ := ih (Moves.sound (assignOne_quiet assigned) sound) later
    refine ⟨onward.trans onward', fun a ha => ?_, ?_⟩
    · rcases List.mem_append.mp ha with here | there
      · exact ⟨(now' a here).1, onward'.gone (now' a here).2⟩
      · exact ⟨fun gone => (then' a there).1 (onward.gone gone), (then' a there).2⟩
    · refine List.nodup_append.mpr ⟨Option.toList_nodup first, once, fun a here b there same => ?_⟩
      exact (then' b there).1 (same ▸ (now' a here).2)

/-! ### Strategies -/

theorem deferTo_queueItems {next : StrategyId} {x : Slot} :
    (s.deferTo next x d).queueItems = s.queueItems := by
  unfold deferTo
  split
  · rfl
  · split
    · rfl
    · split <;> rfl

theorem carryOut_filed (filed : s.Filed) : (s.carryOut σ d).Filed := by
  unfold carryOut
  split
  · exact filed.sublist List.filter_sublist
  · split
    · exact filed
    · exact Ascending.put_key_pairwise filed
  · split
    · exact filed
    · rwa [Filed, deferTo_queueItems]

theorem carryOutAll_filed (filed : s.Filed) : (s.carryOutAll σ ds).Filed :=
  List.foldlRecOn (motive := Filed) ds _ filed fun _ filed _ _ => carryOut_filed filed

/-- A strategy leaves what is settled, and lets in only what was not. -/
theorem runStrategy_onward {strategy : Strategy} (sound : s.Sound) :
    Onward s (s.runStrategy tenant strategy).2 := by
  have concluded := sound.run_concluded tenant strategy
  have after := runStrategy_sound sound tenant strategy
  have tasks := concluded.tasks
  refine ⟨?_, fun q hq => ?_, fun filed => ?_⟩
  · rintro a ⟨t, ht, id, past⟩
    refine ⟨t, tasks ▸ ht, id, past.imp_right (And.imp_right fun filled => ?_)⟩
    by_cases decided : ∃ d ∈ s.decisions tenant (s.asRegistered strategy), d.task.id = a.id
    · obtain ⟨d, hd, same⟩ := decided
      rw [← same] at filled ⊢
      cases concluded.each d hd with
      | evicted _ _ _ _ out =>
        rw [out.slots]
        exact List.forall_mem_nil _
      | @queued x _ was _ _ waiting | @deferred x _ _ was _ _ waiting =>
        have held := filled x (was ▸ List.mem_append_right _ List.mem_cons_self)
        exact absurd (held.symm.trans waiting) nofun
    · rwa [(concluded.others a.id fun d hd same => decided ⟨d, hd, same⟩).slots]
  · by_cases decided : ∃ d ∈ s.decisions tenant (s.asRegistered strategy), d.task.id = q.task.id
    · obtain ⟨d, hd, same⟩ := decided
      obtain ⟨t, ht, owner⟩ := after.itemOwner q hq
      obtain ⟨rfl, -, -⟩ := (after.standing t ht).item q hq owner.symm
      rw [tasks] at ht
      refine Or.inr fun settled => ?_
      have filled := (sound.settled_iff ht).mp settled
      cases concluded.each d hd with
      | evicted _ _ _ _ out => exact out.items _ hq same.symm
      | @queued x _ was _ _ waiting | @deferred x _ _ was _ _ waiting =>
        rw [show d.task.id = t.id from same] at was
        have held := filled x (was ▸ List.mem_append_right _ List.mem_cons_self)
        exact absurd (held.symm.trans waiting) nofun
    · have kept := concluded.others q.task.id fun d hd same => decided ⟨d, hd, same⟩
      exact Or.inl ((kept.items q rfl).mp hq)
  · rw [sound.runStrategy_eq]
    exact carryOutAll_filed filed

/-- What a strategy tells of as cancelled is gone. -/
theorem runStrategy_gone {strategy : Strategy} (sound : s.Sound) :
    ∀ a ∈ (s.runStrategy tenant strategy).1.cancelled.map (·.task),
      (s.runStrategy tenant strategy).2.Gone a := by
  intro a told
  obtain ⟨t, ht, rfl, -⟩ := sound.evicted_current told
  have concluded := sound.run_concluded tenant strategy
  rw [sound.runStrategy_eq] at told
  obtain ⟨d, hd, verdict, about⟩ := Admission.Summary.mem_cancelled.mp told
  obtain ⟨-, out⟩ := (concluded.each d hd).of_cancelled verdict
  rw [about] at out
  refine ⟨⟨t, ht, rfl, Or.inr ⟨rfl, ?_⟩⟩, fun ⟨q, hq, mine⟩ => out.items q hq (congrArg Attempt.id mine)⟩
  rw [out.slots]
  exact List.forall_mem_nil _

/-! ### Creation -/

theorem creates_onward {ids : IdSource} {named : List ExternalId} {k : Creation} (sound : s.Sound)
    (made : Creation.Creates tenant named { store := s, ids } k) : Onward s k.store := by
  induction made with
  | none => exact .refl s
  | other _ alike _ _ ih => exact ih.trans (.same alike.tasks alike.slots alike.items)
  | task before source inserted _ _ _ ih =>
    exact ih.trans (insertTask_onward (Moves.sound before.quiet sound) source.free inserted)

/-! ### Commands -/

theorem obey_onward (sound : s.Sound) (done : s.obey c = .ok (more, s')) : Onward s s' := by
  cases c with
  | triggerEvents ids now tenant events =>
    obtain ⟨k, triggered, done⟩ := bind_ok done
    cases done
    exact creates_onward sound (triggerEvents_creates triggered)
  | triggerRuns ids now tenant requests =>
    obtain ⟨k, triggered, done⟩ := bind_ok done
    cases done
    exact creates_onward sound (triggerRuns_creates triggered)
  | matchOutcomes ids now tenant events =>
    obtain ⟨k, matched, done⟩ := bind_ok done
    cases done
    exact creates_onward sound (matchOutcomes_creates matched)
  | complete tenant attempts =>
    cases done
    rw [complete_eq]
    exact endEach_onward (fun s a => s.completeOne_ending tenant a) rfl sound attempts
  | cancel tenant attempts =>
    cases done
    rw [cancel_eq]
    exact endEach_onward (fun s a => s.cancelOne_ending tenant a) rfl sound attempts
  | fail now tenant failures =>
    obtain ⟨⟨r, s₁⟩, failed, done⟩ := bind_ok done
    cases done
    exact fail_onward sound failed
  | assign now tenant assignments =>
    obtain ⟨⟨r, s₁⟩, assigned, done⟩ := bind_ok done
    cases done
    exact (assign_gone sound assigned).1
  | runStrategy tenant strategy =>
    cases done
    exact runStrategy_onward sound
  | refreshActive tenant strategy =>
    cases done
    rw [refreshActive_eq]
    exact .same rfl rfl rfl
  | setWorkerActive id active =>
    obtain ⟨s₁, set, done⟩ := bind_ok done
    cases done
    unfold setWorkerActive at set
    split at set
    · cases set
    · cases set
      exact .same rfl rfl rfl
  | registerWorkflow tenant w =>
    obtain ⟨_, _, done⟩ := bind_ok done
    cases done
    exact .same rfl rfl rfl
  | registerTenant | registerWorker | createPartitions =>
    cases done
    exact .same rfl rfl rfl

end WorkflowEngine.Store
