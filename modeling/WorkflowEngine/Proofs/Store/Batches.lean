import WorkflowEngine.Proofs.Store.Operation

/-!
Batches of attempts that end. What is done for a list of attempts is done for its first part and then
for the rest, and what it comes to is what both parts come to.
-/

namespace WorkflowEngine

open Fallible

namespace Store

variable {s s' : Store} {tenant : TenantId} {now : Instant} {t : ReleasedTask} {a : Attempt}

/-! ### Completion and cancellation -/

section

variable {one : Store → Attempt → Option ReleasedTask × Store} {state : TaskState}

theorem endEach_append (s : Store) (as bs : List Attempt) :
    s.endEach one (as ++ bs) =
      ((s.endEach one as).1 ++ ((s.endEach one as).2.endEach one bs).1,
        ((s.endEach one as).2.endEach one bs).2) := by
  induction as generalizing s with
  | nil => rfl
  | cons a rest ih => simp only [List.cons_append, endEach, ih, List.append_assoc]

theorem Ending.attempt {p : Option ReleasedTask × Store} (ending : Ending s tenant a state p)
    (released : p.1 = some t) : t.attempt = a := by
  cases ending with
  | passed => cases released
  | ended found =>
    cases released
    exact (accepted?_eq_some found).2.2.1

theorem Ending.workers {p : Option ReleasedTask × Store} (ending : Ending s tenant a state p) :
    p.2.workers = s.workers := by
  cases ending with
  | passed | ended => rfl

theorem endEach_attempt (endings : ∀ s a, Ending s tenant a state (one s a)) {as : List Attempt}
    (h : t ∈ (s.endEach one as).1) : t.attempt ∈ as := by
  induction as generalizing s with
  | nil => cases h
  | cons a rest ih =>
    rcases List.mem_append.mp h with first | later
    · rw [(endings s a).attempt (Option.mem_toList.mp first)]
      exact List.mem_cons_self
    · exact List.mem_cons_of_mem a (ih later)

theorem endEach_workers (endings : ∀ s a, Ending s tenant a state (one s a)) (s : Store)
    (as : List Attempt) : (s.endEach one as).2.workers = s.workers := by
  induction as generalizing s with
  | nil => rfl
  | cons a rest ih => exact (ih _).trans (endings s a).workers

end

theorem complete_append (s : Store) (tenant : TenantId) (as bs : List Attempt) :
    s.complete tenant (as ++ bs) =
      ((s.complete tenant as).1 ++ ((s.complete tenant as).2.complete tenant bs).1,
        ((s.complete tenant as).2.complete tenant bs).2) := by
  simp only [complete_eq, endEach_append]

theorem cancel_append (s : Store) (tenant : TenantId) (as bs : List Attempt) :
    s.cancel tenant (as ++ bs) =
      ((s.cancel tenant as).1 ++ ((s.cancel tenant as).2.cancel tenant bs).1,
        ((s.cancel tenant as).2.cancel tenant bs).2) := by
  simp only [cancel_eq, endEach_append]

/-- An attempt is completed once: what comes of it later is passed over. -/
theorem completeOne_again (s : Store) (tenant : TenantId) (a : Attempt) :
    (s.completeOne tenant a).2.completeOne tenant a = (none, (s.completeOne tenant a).2) := by
  have passed : (s.completeOne tenant a).2.accepted? tenant a = none := by
    unfold completeOne
    split
    · assumption
    · -- The task is in the store with a state that ends it, and no other task has its number.
      rename_i t found
      obtain ⟨here, -, -, -⟩ := accepted?_eq_some found
      refine Option.eq_none_iff_forall_ne_some.mpr fun u again => ?_
      obtain ⟨hu, live⟩ := accepted?_task again
      have same : u.id = a.id := (mem_of_task? (accepted?_eq_some again).1).2
      rcases mem_setTask.mp hu with ⟨rfl, -⟩ | ⟨-, other⟩
      · cases live
      · exact other (same.trans (mem_of_task? here).2.symm)
  rw [completeOne, passed]

theorem complete_again (s : Store) (tenant : TenantId) (a : Attempt) :
    s.complete tenant [a, a] = s.complete tenant [a] ∧
      (s.complete tenant [a]).2.complete tenant [a] = ([], (s.complete tenant [a]).2) := by
  have again := completeOne_again s tenant a
  simp only [complete, again]
  exact ⟨rfl, rfl⟩

theorem cancel_workers (s : Store) (tenant : TenantId) (as : List Attempt) :
    (s.cancel tenant as).2.workers = s.workers := by
  rw [cancel_eq]
  exact endEach_workers (fun s a => s.cancelOne_ending tenant a) s as

/-! ### Failure -/

/-- What two lists of failures come to, one after the other. -/
def FailureResult.append (r more : FailureResult) : FailureResult where
  released := r.released ++ more.released
  retried := r.retried ++ more.retried

theorem fail_from (r : FailureResult) (s : Store) (now : Instant) (tenant : TenantId)
    (failures : List Failure) :
    failures.foldlM (fun (r, s) f => do
        let (outcome, s) ← s.failOne now tenant f
        return (FailureResult.add r outcome, s)) (r, s) =
      (fun p => (FailureResult.append r p.1, p.2)) <$> s.fail now tenant failures := by
  -- Both folds step alike; the results of the second are gathered behind `r`.
  induction failures generalizing r s with
  | nil =>
    change Except.ok (r, s) = Except.ok (FailureResult.append r {}, s)
    simp [FailureResult.append]
  | cons f rest ih =>
    simp only [fail, List.foldlM_cons]
    cases s.failOne now tenant f with
    | error x => rfl
    | ok done =>
      obtain ⟨outcome, s₁⟩ := done
      change rest.foldlM _ (FailureResult.add r outcome, s₁) =
        (fun p => (FailureResult.append r p.1, p.2)) <$>
          rest.foldlM _ (FailureResult.add {} outcome, s₁)
      rw [ih, ih]
      cases s₁.fail now tenant rest with
      | error x => rfl
      | ok p => cases outcome <;> simp [FailureResult.append, FailureResult.add]

theorem fail_append (s : Store) (now : Instant) (tenant : TenantId) (fs gs : List Failure) :
    s.fail now tenant (fs ++ gs) = do
      let p ← s.fail now tenant fs
      let q ← p.2.fail now tenant gs
      return (FailureResult.append p.1 q.1, q.2) := by
  rw [fail, List.foldlM_append]
  change s.fail now tenant fs >>= _ = _
  refine congrArg (s.fail now tenant fs >>= ·) (funext fun p => ?_)
  rw [fail_from]
  rfl

/-- Only a deadline out of range is in the way of a failure. -/
theorem fail_error {failures : List Failure} {f : Fault} (h : s.fail now tenant failures = .error f) :
    ∃ text, f = .panic text := by
  refine foldlM_error (P := fun f => ∃ text, f = .panic text) h ?_
  rintro ⟨r, s₁⟩ failure - f step
  rcases bind_error step with failed | ⟨_, _, done⟩
  · unfold failOne at failed
    split at failed
    · cases failed
    · split at failed
      · rcases bind_error failed with stopped | ⟨_, _, done⟩
        · rcases bind_error stopped with late | ⟨_, _, done⟩
          · unfold Task.deadline at late
            split at late
            · cases late
            · cases late
              exact ⟨_, rfl⟩
          · cases done
        · cases done
      · cases failed
  · cases done

theorem failOne_attempt {f : Failure} {outcome : FailureOutcome}
    (h : s.failOne now tenant f = .ok (outcome, s')) :
    (∀ t, outcome = .released t → t.attempt = f.task) ∧
      ∀ t, outcome = .retried t → t.failedAttempt = f.task := by
  unfold failOne at h
  split at h
  · cases h
    exact ⟨nofun, nofun⟩
  · rename_i found
    split at h
    · obtain ⟨next, _, h⟩ := bind_ok h
      cases h
      refine ⟨nofun, fun t same => ?_⟩
      cases same
      rfl
    · cases h
      refine ⟨fun t same => ?_, nofun⟩
      cases same
      exact (accepted?_eq_some found).2.2.1

theorem fail_attempts {failures : List Failure} {result : FailureResult}
    (h : s.fail now tenant failures = .ok (result, s')) :
    (∀ t ∈ result.released, ∃ f ∈ failures, f.task = t.attempt) ∧
      ∀ t ∈ result.retried, ∃ f ∈ failures, f.task = t.failedAttempt := by
  refine foldlM_ok (P := fun p : FailureResult × Store =>
    (∀ t ∈ p.1.released, ∃ f ∈ failures, f.task = t.attempt) ∧
      ∀ t ∈ p.1.retried, ∃ f ∈ failures, f.task = t.failedAttempt) h ⟨nofun, nofun⟩ ?_
  rintro ⟨r, s₁⟩ f member ⟨r', s₂⟩ ⟨released, retried⟩ step
  obtain ⟨⟨outcome, s₃⟩, failed, step⟩ := bind_ok step
  obtain ⟨ended, again⟩ := failOne_attempt failed
  cases step
  cases outcome with
  | ignored => exact ⟨released, retried⟩
  | released x =>
    refine ⟨fun t ht => ?_, retried⟩
    rcases List.mem_append.mp ht with old | new
    · exact released t old
    · rw [List.mem_singleton.mp new]
      exact ⟨f, member, (ended x rfl).symm⟩
  | retried x =>
    refine ⟨released, fun t ht => ?_⟩
    rcases List.mem_append.mp ht with old | new
    · exact retried t old
    · rw [List.mem_singleton.mp new]
      exact ⟨f, member, (again x rfl).symm⟩

end Store

end WorkflowEngine
