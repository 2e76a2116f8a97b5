import WorkflowEngine.Effect.Sweep
import WorkflowEngine.Proofs.Store.Attempts
import WorkflowEngine.Proofs.Store.Batches

/-!
What a list of failures reports of a store of any kind. An attempt that fails for good is the last of its
task, and an attempt that is retried is followed by the next one, so no attempt is reported twice. A task is
reported twice if the list names the attempt that is yet to come as well; a list that names the attempts of
a task in no such order is told of each task once.
-/

namespace WorkflowEngine

open Fallible

/-- The list names an attempt and, after it, a later one of the same task. -/
def Overtaken (failures : List Failure) (a b : Attempt) : Prop :=
  a.id = b.id ∧ a.retryCount < b.retryCount ∧
    ∃ f g : Failure, [f, g].Sublist failures ∧ f.task = a ∧ g.task = b

theorem Overtaken.cons {failures : List Failure} {a b : Attempt} (f : Failure)
    (overtaken : Overtaken failures a b) : Overtaken (f :: failures) a b := by
  obtain ⟨same, later, g, h, listed, first, second⟩ := overtaken
  exact ⟨same, later, g, h, listed.cons f, first, second⟩

namespace FailureResult

/-- The tasks that the result names, as often as it names them. -/
def tasks (r : FailureResult) : List TaskId := r.released.map (·.id) ++ r.retried.map (·.id)

/-- What the result says of a task is said of different attempts, in the order of the list. -/
structure Apart (failures : List Failure) (r : FailureResult) : Prop where
  listed : ∀ a ∈ r.moved, ∃ f ∈ failures, f.task = a
  named : ∀ x ∈ r.retried, x.id = x.failedAttempt.id
  ended : r.released.Pairwise fun t u => t.id ≠ u.id
  followed : r.retried.Pairwise fun x y =>
    x.id = y.id → Overtaken failures x.failedAttempt y.failedAttempt
  last : ∀ t ∈ r.released, ∀ x ∈ r.retried, t.id = x.id → Overtaken failures x.failedAttempt t.attempt

variable {failures : List Failure} {r : FailureResult} {f : Failure} {a : Attempt}

theorem mem_moved_released {t : ReleasedTask} :
    a ∈ moved { r with released := t :: r.released } ↔ a = t.attempt ∨ a ∈ r.moved :=
  List.mem_cons

theorem mem_moved_retried {x : RetriedTask} :
    a ∈ moved { r with retried := x :: r.retried } ↔ a = x.failedAttempt ∨ a ∈ r.moved := by
  simp only [moved, List.map_cons, List.mem_append, List.mem_cons]
  exact or_left_comm

theorem Apart.moved_nodup (apart : r.Apart failures) : r.moved.Nodup := by
  refine List.nodup_append.mpr ⟨?_, ?_, ?_⟩
  · refine List.pairwise_map.mpr (apart.ended.imp fun other same => ?_)
    exact other (congrArg Attempt.id same)
  · refine List.pairwise_map.mpr (apart.followed.imp_of_mem fun {x y} hx hy order same => ?_)
    have id : x.id = y.id := by rw [apart.named x hx, apart.named y hy, same]
    obtain ⟨-, later, -⟩ := order id
    rw [same] at later
    omega
  · intro a ha b hb same
    obtain ⟨t, ht, rfl⟩ := List.mem_map.mp ha
    obtain ⟨x, hx, rfl⟩ := List.mem_map.mp hb
    have id : t.id = x.id := (congrArg Attempt.id same).trans (apart.named x hx).symm
    obtain ⟨-, later, -⟩ := apart.last t ht x hx id
    rw [same] at later
    omega

/-- Without a later attempt behind an earlier one the two sets are disjoint, and name each task once. -/
theorem Apart.tasks_nodup (apart : r.Apart failures) (none : ∀ a b, ¬ Overtaken failures a b) :
    r.tasks.Nodup := by
  refine List.nodup_append.mpr ⟨?_, ?_, ?_⟩
  · exact List.pairwise_map.mpr apart.ended
  · refine List.pairwise_map.mpr (apart.followed.imp fun {x y} order same => ?_)
    exact none _ _ (order same)
  · intro i hi j hj same
    obtain ⟨t, ht, rfl⟩ := List.mem_map.mp hi
    obtain ⟨x, hx, rfl⟩ := List.mem_map.mp hj
    exact none _ _ (apart.last t ht x hx same)

theorem Apart.cons (apart : r.Apart failures) : r.Apart (f :: failures) where
  listed a ha := by
    obtain ⟨g, hg, same⟩ := apart.listed a ha
    exact ⟨g, List.mem_cons_of_mem f hg, same⟩
  named := apart.named
  ended := apart.ended
  followed := apart.followed.imp fun order same => (order same).cons f
  last t ht x hx same := (apart.last t ht x hx same).cons f

/-- A task that has ended is not heard of any more. -/
theorem Apart.consReleased {t : ReleasedTask} (apart : r.Apart failures) (task : t.attempt = f.task)
    (silent : ∀ a ∈ r.moved, a.id ≠ t.id) :
    Apart (f :: failures) { r with released := t :: r.released } := by
  have kept : r.Apart (f :: failures) := apart.cons
  refine ⟨?_, kept.named, ?_, kept.followed, ?_⟩
  · exact List.forall_mem_cons.mpr ⟨⟨f, List.mem_cons_self, task.symm⟩, kept.listed⟩
  · refine List.pairwise_cons.mpr ⟨fun u hu same => ?_, kept.ended⟩
    exact silent u.attempt (List.mem_append_left _ (List.mem_map_of_mem hu)) same.symm
  · refine List.forall_mem_cons.mpr ⟨fun x hx same => ?_, kept.last⟩
    have told : x.failedAttempt ∈ r.moved := List.mem_append_right _ (List.mem_map_of_mem hx)
    exact absurd ((kept.named x hx).symm.trans same.symm) (silent _ told)

/-- A task that is retried is heard of again with later attempts only. -/
theorem Apart.consRetried {x : RetriedTask} (apart : r.Apart failures) (id : x.id = f.task.id)
    (task : x.failedAttempt = f.task)
    (later : ∀ a ∈ r.moved, a.id = x.id → f.task.retryCount < a.retryCount) :
    Apart (f :: failures) { r with retried := x :: r.retried } := by
  have kept : r.Apart (f :: failures) := apart.cons
  have overtaken {a : Attempt} (told : a ∈ r.moved) (same : x.id = a.id) :
      Overtaken (f :: failures) x.failedAttempt a := by
    obtain ⟨g, hg, rfl⟩ := apart.listed a told
    refine ⟨?_, ?_, f, g, (List.singleton_sublist.mpr hg).cons_cons f, task.symm, rfl⟩
    · rw [task, ← id, same]
    · rw [task]
      exact later _ told same.symm
  refine ⟨?_, ?_, kept.ended, ?_, ?_⟩
  · intro a ha
    rcases mem_moved_retried.mp ha with rfl | old
    · exact ⟨f, List.mem_cons_self, task.symm⟩
    · exact kept.listed a old
  · exact List.forall_mem_cons.mpr ⟨id.trans (congrArg Attempt.id task).symm, kept.named⟩
  · refine List.pairwise_cons.mpr ⟨fun y hy same => ?_, kept.followed⟩
    refine overtaken (List.mem_append_right _ (List.mem_map_of_mem hy)) ?_
    rw [same, kept.named y hy]
  · intro t ht
    refine List.forall_mem_cons.mpr ⟨fun same => ?_, kept.last t ht⟩
    exact overtaken (List.mem_append_left _ (List.mem_map_of_mem ht)) same.symm

end FailureResult

namespace Store

variable {s s' : Store} {tenant : TenantId} {now : Instant} {t u : Task} {f : Failure}
  {failures : List Failure} {r : FailureResult}

theorem setTask_task? (s : Store) (u : Task) (i : TaskId) :
    (s.setTask u).task? i = if i = u.id then (s.task? i).map fun _ => u else s.task? i := by
  simp only [task?, setTask]
  induction s.tasks with
  | nil => simp
  | cons t rest ih =>
    rw [List.map_cons, List.find?_cons, List.find?_cons, ih]
    by_cases mine : t.id = u.id <;> by_cases asked : i = u.id
    · simp [mine, asked]
    · have other : (u.id == i) = false := beq_false_of_ne (Ne.symm asked)
      simp [mine, asked, other]
    · have other : (t.id == u.id) = false := beq_false_of_ne mine
      simp [asked, other]
    · simp [mine, asked]

/-- What a failure does in a store of any kind: it is passed over, or it is about the current attempt of
its task, which ends or comes to its next attempt; the other tasks are as they were. -/
theorem failOne_task {o : FailureOutcome} (h : s.failOne now tenant f = .ok (o, s')) :
    (o = .ignored ∧ s' = s) ∨ ∃ t u, s.task? f.task.id = some t ∧ t.attempt = f.task ∧
      t.state.isTerminal = false ∧ s'.task? f.task.id = some u ∧
      (∀ i, i ≠ f.task.id → s'.task? i = s.task? i) ∧
      ((∃ x, o = .released x ∧ x.attempt = f.task ∧ u.state.isTerminal = true) ∨
        ∃ x, o = .retried x ∧ x.id = f.task.id ∧ x.failedAttempt = f.task ∧
          f.task.retryCount < u.retryCount) := by
  unfold failOne at h
  split at h
  · cases h
    exact Or.inl ⟨rfl, rfl⟩
  · rename_i t found
    obtain ⟨here, -, attempt, live⟩ := accepted?_eq_some found
    have id : t.id = f.task.id := congrArg Attempt.id attempt
    have replaced {s' : Store} (u : Task) (tasks : s'.tasks = (s.setTask u).tasks) (same : u.id = t.id) :
        s'.task? f.task.id = some u ∧ ∀ i, i ≠ f.task.id → s'.task? i = s.task? i := by
      have look (i : TaskId) : s'.task? i = (s.setTask u).task? i := by rw [task?, tasks, task?]
      refine ⟨?_, fun i other => ?_⟩
      · rw [look, setTask_task?, if_pos (id.symm.trans same.symm), here, Option.map_some]
      · rw [look, setTask_task?, if_neg fun mine => other (mine.trans (same.trans id))]
    split at h
    · obtain ⟨next, again, h⟩ := bind_ok h
      obtain ⟨same, -, counted, -⟩ := nextAttempt_counts again
      cases h
      have tasks : (((s.setTask next).release t.id).enqueue next).tasks = (s.setTask next).tasks := by
        rw [enqueue_tasks]
        rfl
      obtain ⟨next', others⟩ := replaced next tasks same
      refine Or.inr ⟨t, next, here, attempt, live, next', others, Or.inr ⟨_, rfl, id, rfl, ?_⟩⟩
      rw [counted, ← attempt]
      exact Int.lt_succ t.retryCount
    · cases h
      obtain ⟨ended, others⟩ := replaced { t with state := .failed, timeoutAt := none } rfl rfl
      exact Or.inr ⟨t, _, here, attempt, live, ended, others, Or.inl ⟨_, rfl, attempt, rfl⟩⟩

theorem fail_cons (h : s.fail now tenant (f :: failures) = .ok (r, s')) :
    ∃ o s₁ more, s.failOne now tenant f = .ok (o, s₁) ∧ s₁.fail now tenant failures = .ok (more, s') ∧
      r = FailureResult.append (FailureResult.add {} o) more := by
  rw [fail, List.foldlM_cons] at h
  obtain ⟨⟨r₁, s₁⟩, first, h⟩ := bind_ok h
  obtain ⟨⟨o, s₂⟩, one, first⟩ := bind_ok first
  cases first
  rw [fail_from] at h
  obtain ⟨⟨more, s₃⟩, later, h⟩ := bind_ok h
  cases h
  exact ⟨o, s₁, more, one, later, rfl⟩

/-- Of a task that the store knows only attempts are reported that it has yet to come to, and none once it
has ended. -/
theorem fail_since (h : s.fail now tenant failures = .ok (r, s')) (here : s.task? i = some t) :
    ∀ a ∈ r.moved, a.id = i → t.state.isTerminal = false ∧ t.retryCount ≤ a.retryCount := by
  induction failures generalizing s r t with
  | nil =>
    cases h
    exact nofun
  | cons f rest ih =>
    obtain ⟨o, s₁, more, one, later, rfl⟩ := fail_cons h
    intro a ha mine
    rcases failOne_task one with ⟨rfl, rfl⟩ | ⟨t₁, u, here₁, named, live, next, others, outcome⟩
    · exact ih later here a ha mine
    · have told : (a = f.task ∨ a ∈ more.moved) ∧
          (u.state.isTerminal = true ∨ f.task.retryCount < u.retryCount) := by
        rcases outcome with ⟨x, rfl, attempt, ended⟩ | ⟨x, rfl, -, attempt, further⟩
        · exact ⟨attempt ▸ FailureResult.mem_moved_released.mp ha, Or.inl ended⟩
        · exact ⟨attempt ▸ FailureResult.mem_moved_retried.mp ha, Or.inr further⟩
      obtain ⟨told, moved⟩ := told
      by_cases about : i = f.task.id
      · subst about
        cases here.symm.trans here₁
        rcases told with rfl | told
        · exact ⟨live, (congrArg Attempt.retryCount named).le⟩
        · obtain ⟨open', since⟩ := ih later next a told mine
          have further := moved.resolve_left (by simp [open'])
          rw [← named] at further
          exact ⟨live, further.le.trans since⟩
      · have old : a ∈ more.moved :=
          told.resolve_left fun same => about (mine.symm.trans (congrArg Attempt.id same))
        exact ih later ((others i about).trans here) a old mine

theorem apart_of_fail (h : s.fail now tenant failures = .ok (r, s')) : r.Apart failures := by
  induction failures generalizing s r with
  | nil =>
    cases h
    exact ⟨nofun, nofun, .nil, .nil, nofun⟩
  | cons f rest ih =>
    obtain ⟨o, s₁, more, one, later, rfl⟩ := fail_cons h
    have apart := ih later
    rcases failOne_task one with ⟨rfl, rfl⟩ | ⟨t, u, -, -, -, next, -, outcome⟩
    · exact apart.cons
    · have since := fail_since later next
      rcases outcome with ⟨x, rfl, attempt, ended⟩ | ⟨x, rfl, id, attempt, further⟩
      · refine apart.consReleased attempt fun a ha mine => ?_
        have live := (since a ha (mine.trans (congrArg Attempt.id attempt))).1
        rw [ended] at live
        cases live
      · refine apart.consRetried id attempt fun a ha mine => ?_
        exact further.trans_le (since a ha (mine.trans id)).2

end Store

end WorkflowEngine
