import WorkflowEngine.Engine.Tasks
import WorkflowEngine.Proofs.Store.Failures
import WorkflowEngine.Proofs.Store.Lives
import WorkflowEngine.Proofs.System.Commands
import WorkflowEngine.Proofs.System.Telling

/-!
Sweeps at a clock that stands still. A pass that reaches its limit takes lives of the tasks it lists, so
that the passes come to an end, also where a task is due again as soon as it waits; and behind a pass that
does not reach it no attempt is left that was due.
-/

namespace WorkflowEngine

open Fallible Store

variable {s s' : Store} {t : Task} {ids : IdSource} {now : Instant} {tenant : TenantId} {limit : Nat}
  {kind : Sweep} {x : SweepEffect} {fault : Fault}

/-! ### What a sweep looks for -/

namespace Sweep

/-- The current attempt of the task has missed a deadline, or its worker is gone. -/
def due (kind : Sweep) (s : Store) (now : Instant) (t : Task) : Bool :=
  match kind with
  | .timeout => (overdue? t now).isSome
  | .reassign => (s.lostWorker? t).isSome

theorem due_live (due : kind.due s now t = true) : t.state.isTerminal = false := by
  cases state : t.state with
  | queued | running => rfl
  | completed | failed | cancelled | skipped =>
    cases kind <;> simp [Sweep.due, overdue?, lostWorker?, state] at due

/-- Whether an attempt is due is read off its task and the workers. -/
theorem due_congr (workers : s'.workers = s.workers) : kind.due s' now t = kind.due s now t := by
  have known : s'.worker? = s.worker? := by
    funext id
    rw [worker?, workers, worker?]
  cases kind with
  | timeout => rfl
  | reassign =>
    unfold Sweep.due lostWorker?
    rw [known]

/-- The tasks of the tenant whose attempts are due. -/
def backlog (kind : Sweep) (s : Store) (now : Instant) (tenant : TenantId) : List Task :=
  (s.tasks.filter (·.tenantId == tenant)).filter (kind.due s now)

theorem mem_backlog : t ∈ kind.backlog s now tenant ↔
    t ∈ s.tasks ∧ t.tenantId = tenant ∧ kind.due s now t = true := by
  simp only [backlog, List.mem_filter, beq_iff_eq, and_assoc]

/-- A pass reports the first attempts that are due. -/
theorem failures_tasks : (kind.failures s now tenant limit).map (·.task) =
    ((kind.backlog s now tenant).take limit).map (·.attempt) := by
  have first {α : Type} (found : Task → Option α) (ts : List Task) :
      (ts.filterMap fun t => (found t).map fun _ => t.attempt) =
        (ts.filter fun t => (found t).isSome).map (·.attempt) := by
    rw [← List.filterMap_eq_map, List.filterMap_filter]
    refine List.filterMap_congr fun t _ => ?_
    cases found t <;> rfl
  cases kind with
  | timeout =>
    simp only [failures, listOverdue, List.map_take, List.map_filterMap, Option.map_map]
    exact congrArg (List.take limit) (first (overdue? · now) _)
  | reassign =>
    simp only [failures, listStranded, List.map_take, List.map_filterMap, Option.map_map]
    exact congrArg (List.take limit) (first s.lostWorker? _)

theorem failures_own : ∀ f ∈ kind.failures s now tenant limit, f.isAppError = false := by
  cases kind <;> simp [failures]

theorem failures_length : (kind.failures s now tenant limit).length =
    min limit (kind.backlog s now tenant).length := by
  rw [← List.length_map, failures_tasks, List.length_map, List.length_take]

/-- What a pass reports of a task it reports once. -/
theorem tasks_nodup {r : FailureResult} (sound : s.Sound)
    (failed : s.fail now tenant (kind.failures s now tenant limit) = .ok (r, s')) : r.tasks.Nodup := by
  have apart : ((kind.backlog s now tenant).take limit).Pairwise fun t u => t.id ≠ u.id := by
    have listed : ((kind.backlog s now tenant).take limit).Sublist s.tasks :=
      (List.take_sublist _ _).trans (List.filter_sublist.trans List.filter_sublist)
    exact (sound.ordered.sublist listed).imp ne_of_lt
  have named : ((kind.failures s now tenant limit).map (·.task)).Pairwise fun a b => a.id ≠ b.id := by
    rw [failures_tasks]
    exact List.pairwise_map.mpr apart
  refine (apart_of_fail failed).tasks_nodup fun a b overtaken => ?_
  obtain ⟨same, -, f, g, listed, rfl, rfl⟩ := overtaken
  exact List.rel_of_pairwise_cons (named.sublist (listed.map (·.task))) List.mem_cons_self same

end Sweep

/-! ### One pass -/

theorem sweep_store (s : Store) (ids : IdSource) (now : Instant) (tenant : TenantId) (kind : Sweep)
    (limit : Nat) : (·.effect.store) <$> sweep kind s ids now tenant limit =
    (kind.failures s now tenant limit).foldlM (fun s f => s.failed now tenant f) s := by
  rw [sweep_command, ← fail_each, obey]
  cases s.fail now tenant (kind.failures s now tenant limit) <;> rfl

/-- A pass tells whether it reached its limit. -/
theorem sweep_more (positive : 0 < limit) (swept : sweep kind s ids now tenant limit = .ok x) :
    x.more = decide (limit ≤ (kind.backlog s now tenant).length) := by
  have told : x.more = decide (limit ≤ (kind.failures s now tenant limit).length) := by
    cases kind with
    | timeout | reassign =>
      simp only [sweep, sweepTimeouts, sweepStranded] at swept
      simp only [Sweep.failures, List.length_map]
      split at swept
      · rename_i nothing
        cases swept
        rw [nothing]
        exact (decide_eq_false (Nat.not_le.mpr positive)).symm
      · obtain ⟨_, _, swept⟩ := bind_ok swept
        cases swept
        rfl
  rw [told, Sweep.failures_length]
  exact decide_eq_decide.mpr (by omega)

/-- The attempts that are due are current ones. -/
theorem backlog_accepted (sound : s.Sound) (due : t ∈ kind.backlog s now tenant) :
    s.accepted? tenant t.attempt = some t := by
  obtain ⟨ht, owner, due⟩ := Sweep.mem_backlog.mp due
  rw [← owner]
  exact sound.ordered.accepted?_eq ht (Sweep.due_live due)

/-- Behind a pass lives were spent: one at least if it reached its limit, and otherwise one for each
attempt that was due. -/
theorem sweep_spends (sound : s.Sound) (positive : 0 < limit)
    (swept : sweep kind s ids now tenant limit = .ok x) :
    Spends tenant s x.effect.store ∧
      if x.more then x.effect.store.lives tenant < s.lives tenant
      else ∀ t ∈ kind.backlog s now tenant, x.effect.store.Past t.attempt := by
  have own : ∀ f ∈ kind.failures s now tenant limit, f.isAppError = false := Sweep.failures_own
  have reported : (kind.failures s now tenant limit).map (·.task) = _ := Sweep.failures_tasks
  have done := sweep_store s ids now tenant kind limit
  rw [swept] at done
  have done := done.symm
  obtain ⟨spends, gone⟩ := failAll_spends sound own done
  refine ⟨spends, ?_⟩
  rw [sweep_more positive swept]
  by_cases reached : limit ≤ (kind.backlog s now tenant).length
  · rw [if_pos (decide_eq_true reached)]
    cases failures : kind.failures s now tenant limit with
    | nil =>
      have none := congrArg List.length failures
      rw [Sweep.failures_length] at none
      change min _ _ = 0 at none
      omega
    | cons f rest =>
      rw [failures] at own done reported
      -- the first attempt listed is a current one, so that its failure takes a life
      have first : f.task ∈ ((kind.backlog s now tenant).take limit).map (·.attempt) :=
        reported ▸ List.mem_cons_self
      obtain ⟨t, ht, attempt⟩ := List.mem_map.mp first
      refine failAll_fewer (t := t) sound own ?_ done
      rw [← attempt]
      exact backlog_accepted sound (List.mem_of_mem_take ht)
  · rw [if_neg (decide_eq_true_iff.not.mpr reached)]
    -- the limit cuts nothing off
    intro t ht
    rw [List.take_of_length_le (by omega)] at reported
    have listed := List.mem_map_of_mem (f := Task.attempt) ht
    rw [← reported] at listed
    obtain ⟨f, hf, attempt⟩ := List.mem_map.mp listed
    rw [← attempt]
    exact gone f hf t (attempt ▸ backlog_accepted sound ht)

/-- Nothing but a deadline beyond the calendar stops a pass. -/
theorem sweep_stopped (sound : s.Sound) (stopped : sweep kind s ids now tenant limit = .error fault) :
    ∃ t ∈ s.tasks, t.tenantId = tenant ∧ t.state.isTerminal = false ∧
      Task.deadline now t.scheduleTimeoutSecs = .error fault := by
  have failed := sweep_store s ids now tenant kind limit
  rw [stopped] at failed
  exact failAll_stopped sound Sweep.failures_own failed.symm

/-! ### Passes one after the other -/

namespace Engine

variable {e e' : Engine} {r : Except Fault Unit}

/-- Passes of a sweep at a clock that stands still, up to the first that has no more to do or fails. -/
inductive Sweeping (now : Instant) (kind : Sweep) (tenant : TenantId) :
    Nat → Engine → Except Fault Unit → Engine → Prop
  | last {e e' : Engine} (swept : e.sweepOnce now kind tenant = (.ok false, e')) :
      Sweeping now kind tenant 1 e (.ok ()) e'
  | failed {e e' : Engine} {fault : Fault}
      (stopped : e.sweepOnce now kind tenant = (.error fault, e')) :
      Sweeping now kind tenant 1 e (.error fault) e'
  | again {e e₁ e' : Engine} {n : Nat} {r : Except Fault Unit}
      (swept : e.sweepOnce now kind tenant = (.ok true, e₁))
      (rest : Sweeping now kind tenant n e₁ r e') :
      Sweeping now kind tenant (n + 1) e r e'

theorem sweepOnce_ok (there : e.store = .sound s)
    (swept : sweep kind s e.ids now tenant e.settings.sweepBatchLimit = .ok x) :
    e.sweepOnce now kind tenant = (.ok x.more, e.perform kind.name x.effect) := by
  have found : (e.store.get >>= fun s => sweep kind s e.ids now tenant e.settings.sweepBatchLimit) =
      .ok x := by
    rw [there]
    exact swept
  simp only [sweepOnce, found]

theorem sweepOnce_error (there : e.store = .sound s)
    (stopped : sweep kind s e.ids now tenant e.settings.sweepBatchLimit = .error fault) :
    e.sweepOnce now kind tenant = (.error fault, { e with store := e.store.afterFault fault }) := by
  have found : (e.store.get >>= fun s => sweep kind s e.ids now tenant e.settings.sweepBatchLimit) =
      .error fault := by
    rw [there]
    exact stopped
  simp only [sweepOnce, found]

/-- What such passes come to: no attempt is left that was due, or a deadline lies beyond the calendar. -/
def Leaves (s : Store) (now : Instant) (kind : Sweep) (tenant : TenantId) (e' : Engine) :
    Except Fault Unit → Prop
  | .ok () => ∃ s', e'.store = .sound s' ∧ Spends tenant s s' ∧
      ∀ t ∈ kind.backlog s now tenant, s'.Past t.attempt
  | .error fault => ∃ t ∈ s.tasks, t.tenantId = tenant ∧ t.state.isTerminal = false ∧
      Task.deadline now t.scheduleTimeoutSecs = .error fault

/-- A pass before such passes: what it lists is over, and what it does not reach is due as before. -/
theorem Leaves.after (spends : Spends tenant s s') (leaves : Leaves s' now kind tenant e' r) :
    Leaves s now kind tenant e' r := by
  cases r with
  | ok =>
    obtain ⟨s₂, there, more, gone⟩ := leaves
    refine ⟨s₂, there, spends.trans more, fun t ht => ?_⟩
    obtain ⟨listed, owner, due⟩ := Sweep.mem_backlog.mp ht
    rcases spends.kept t listed with same | past
    · exact gone t (Sweep.mem_backlog.mpr ⟨same, owner, (Sweep.due_congr spends.workers).trans due⟩)
    · exact more.past past
  | error fault =>
    obtain ⟨u, hu, owner, live, late⟩ := leaves
    obtain ⟨t, ht, owner', live', waits⟩ := spends.live hu live
    exact ⟨t, ht, owner'.trans owner, live', waits ▸ late⟩

/-- However soon attempts are due again, the passes end, for lives run out. -/
theorem sweeping_ends (now : Instant) (kind : Sweep) (tenant : TenantId) {n : Nat}
    (there : e.store = .sound s) (sound : s.Sound) (positive : 0 < e.settings.sweepBatchLimit)
    (few : s.lives tenant < n) : ∃ k r e', k ≤ n ∧ Sweeping now kind tenant k e r e' ∧
      Leaves s now kind tenant e' r := by
  -- by the lives that are left: a pass that has more to do takes one
  induction n generalizing e s with
  | zero => exact absurd few (Nat.not_lt_zero _)
  | succ n ih =>
    cases swept : sweep kind s e.ids now tenant e.settings.sweepBatchLimit with
    | error fault =>
      exact ⟨1, _, _, Nat.succ_pos n, .failed (sweepOnce_error there swept), sweep_stopped sound swept⟩
    | ok x =>
      have pass := sweepOnce_ok there swept
      have done := e.perform_performed kind.name x.effect
      obtain ⟨spends, progress⟩ := sweep_spends sound positive swept
      cases more : x.more with
      | false =>
        rw [more] at pass progress
        exact ⟨1, _, _, Nat.succ_pos n, .last pass, _, done.store, spends, progress⟩
      | true =>
        rw [more] at pass progress
        have fewer : x.effect.store.lives tenant < n := Nat.lt_of_lt_of_le progress (Nat.le_of_lt_succ few)
        have still : 0 < (e.perform kind.name x.effect).settings.sweepBatchLimit := by
          rw [(done.posted .tasks).settings]
          exact positive
        obtain ⟨k, r, e', small, rest, leaves⟩ := ih done.store spends.sound still fewer
        exact ⟨k + 1, r, e', Nat.succ_le_succ small, .again pass rest, leaves.after spends⟩

/-- Two attempts are made to wait that may not wait at all. -/
def hurrying : List Command :=
  let hasty : Workflow := {
    id := ⟨1⟩
    name := "now"
    steps := [{ id := ⟨2⟩, readableId := "now", queue := "default", scheduleTimeoutSecs := 0 }] }
  let order (id : ExternalId) : RunRequest := { externalId := id, workflowName := "now", data := .null }
  [.registerWorkflow ⟨3⟩ hasty, .createPartitions .epoch,
    .triggerRuns {} .epoch ⟨3⟩ [order ⟨7⟩, order ⟨8⟩]]

/-- The store in which they wait. It grants each task one retry. -/
def hurried : Store :=
  match obeyAll { internalRetries := 1 } hurrying with
  | .ok (_, s) => s
  | .error _ => {}

/-- An attempt may wait until the calendar ends, and may not run. When it is found a second later its next
attempt could wait too long, and the pass ends with a panic. -/
example :
    let patient : Step := {
      id := ⟨2⟩, readableId := "wait", queue := "default"
      scheduleTimeoutSecs := 8210266876799, stepTimeoutSecs := 0 }
    (match obeyAll {} [.registerWorkflow ⟨3⟩ { id := ⟨1⟩, name := "wait", steps := [patient] },
        .createPartitions .epoch,
        .triggerRuns {} .epoch ⟨3⟩ [{ externalId := ⟨7⟩, workflowName := "wait", data := .null }],
        .assign .epoch ⟨3⟩ [⟨⟨1, 0⟩, ⟨4⟩⟩]] with
      | .ok (_, s) => (({ store := .sound s } : Engine).sweepOnce ⟨1000000000⟩ .timeout ⟨3⟩).2.store
      | .error _ => .sound {}) matches .poisoned := rfl

end Engine

end WorkflowEngine
