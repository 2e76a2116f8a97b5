import WorkflowEngine.Proofs.Store.Creation

/-!
Every operation of a store as a sequence of moves. Only running a strategy evicts attempts.
-/

namespace WorkflowEngine

open Fallible Store

namespace Store

variable {s s' : Store} {tenant : TenantId} {now : Instant}

/-! ### Attempts -/

theorem accepted?_task {a : Attempt} {t : Task} (h : s.accepted? tenant a = some t) :
    t ∈ s.tasks ∧ t.state.isTerminal = false := by
  obtain ⟨found, _, _, live⟩ := accepted?_eq_some h
  exact ⟨(mem_of_task? found).1, live⟩

/-- The task when it has ended in the state. -/
def closed (t : Task) (state : TaskState) (schedule : Option Instant) : Task :=
  { t with state, timeoutAt := none, scheduleTimeoutAt := schedule }

/-- What becomes of an attempt that is to end: it is passed over, or its task ends in the state. -/
inductive Ending (s : Store) (tenant : TenantId) (a : Attempt) (state : TaskState) :
    Option ReleasedTask × Store → Prop where
  | passed (absent : s.accepted? tenant a = none) : Ending s tenant a state (none, s)
  | ended {t : Task} (found : s.accepted? tenant a = some t) (schedule : Option Instant) :
      Ending s tenant a state
        (some (s.finish (closed t state schedule)).1, (s.finish (closed t state schedule)).2)

theorem completeOne_ending (s : Store) (tenant : TenantId) (a : Attempt) :
    Ending s tenant a .completed (s.completeOne tenant a) := by
  unfold completeOne
  split
  · exact .passed ‹_›
  · rename_i t found
    exact .ended found t.scheduleTimeoutAt

theorem cancelOne_ending (s : Store) (tenant : TenantId) (a : Attempt) :
    Ending s tenant a .cancelled (s.cancelOne tenant a) := by
  unfold cancelOne
  split
  · exact .passed ‹_›
  · exact .ended ‹_› none

/-- Ends attempts, one after the other. -/
def endEach (one : Store → Attempt → Option ReleasedTask × Store) (s : Store) :
    List Attempt → List ReleasedTask × Store
  | [] => ([], s)
  | a :: rest => ((one s a).1.toList ++ (endEach one (one s a).2 rest).1, (endEach one (one s a).2 rest).2)

theorem complete_eq (s : Store) (tenant : TenantId) (as : List Attempt) :
    s.complete tenant as = s.endEach (fun s a => s.completeOne tenant a) as := by
  induction as generalizing s with
  | nil => rfl
  | cons a rest ih => simp only [complete, endEach, ih]

theorem cancel_eq (s : Store) (tenant : TenantId) (as : List Attempt) :
    s.cancel tenant as = s.endEach (fun s a => s.cancelOne tenant a) as := by
  induction as generalizing s with
  | nil => rfl
  | cons a rest ih => simp only [cancel, endEach, ih]

variable {a : Attempt} {state : TaskState} {p : Option ReleasedTask × Store}
  {one : Store → Attempt → Option ReleasedTask × Store}

theorem Ending.quiet (ending : Ending s tenant a state p) (terminal : state.isTerminal = true) :
    Quiet s p.2 := by
  cases ending with
  | passed => exact .refl s
  | ended found =>
    obtain ⟨ht, live⟩ := accepted?_task found
    exact Move.quiet (.ended ht live ⟨rfl, rfl, rfl, rfl, rfl⟩ terminal)

theorem endEach_quiet (endings : ∀ s a, Ending s tenant a state (one s a))
    (terminal : state.isTerminal = true) (s : Store) (attempts : List Attempt) :
    Quiet s (s.endEach one attempts).2 := by
  induction attempts generalizing s with
  | nil => exact .refl s
  | cons a rest ih => exact ((endings s a).quiet terminal).trans (ih _)

theorem complete_quiet (s : Store) (tenant : TenantId) (attempts : List Attempt) :
    Quiet s (s.complete tenant attempts).2 := by
  rw [complete_eq]
  exact endEach_quiet (fun s a => s.completeOne_ending tenant a) rfl s attempts

theorem cancel_quiet (s : Store) (tenant : TenantId) (attempts : List Attempt) :
    Quiet s (s.cancel tenant attempts).2 := by
  rw [cancel_eq]
  exact endEach_quiet (fun s a => s.cancelOne_ending tenant a) rfl s attempts

theorem failOne_quiet {f : Failure} {outcome : FailureOutcome}
    (h : s.failOne now tenant f = .ok (outcome, s')) : Quiet s s' := by
  unfold failOne at h
  split at h
  · cases h
    exact .refl s
  · rename_i t found
    obtain ⟨ht, live⟩ := accepted?_task found
    split at h
    · obtain ⟨next, done, h⟩ := bind_ok h
      obtain ⟨deadline, _, done⟩ := bind_ok done
      cases done
      cases h
      exact Move.quiet (.retried ht live ⟨rfl, rfl, rfl, rfl, rfl⟩ rfl)
    · cases h
      exact (Ending.ended found t.scheduleTimeoutAt : Ending s tenant _ .failed _).quiet rfl

theorem fail_quiet {failures : List Failure} {r : FailureResult}
    (h : s.fail now tenant failures = .ok (r, s')) : Quiet s s' := by
  refine foldlM_ok (P := fun p : FailureResult × Store => Quiet s p.2) h (.refl s) ?_
  rintro ⟨r, s₁⟩ f - ⟨r', s₂⟩ before step
  obtain ⟨⟨outcome, s₃⟩, failed, step⟩ := bind_ok step
  cases step
  exact before.trans (failOne_quiet failed)

theorem assignOne_quiet {a : Assignment} {r : Option Attempt}
    (h : s.assignOne now tenant a = .ok (r, s')) : Quiet s s' := by
  simp only [assignOne] at h
  split at h
  · cases h
    exact .refl s
  · rename_i t found
    simp only [Option.filter_eq_some_iff, Bool.and_eq_true, Option.any_eq_true, beq_iff_eq] at found
    obtain ⟨found, ⟨q, listed, named, _⟩, _⟩ := found
    obtain ⟨here, _, attempt, _⟩ := accepted?_eq_some found
    obtain ⟨deadline, _, h⟩ := bind_ok h
    cases h
    refine Move.quiet (.started (mem_of_task? here).1 ⟨rfl, rfl, rfl, rfl, rfl⟩ rfl rfl ?_)
    refine ⟨q, List.mem_of_find?_eq_some listed, ?_⟩
    rw [named, ← attempt]
    rfl

theorem assign_quiet {assignments : List Assignment} {r : List Attempt}
    (h : s.assign now tenant assignments = .ok (r, s')) : Quiet s s' := by
  induction assignments generalizing s r with
  | nil =>
    cases h
    exact .refl _
  | cons a rest ih =>
    obtain ⟨⟨first, s₁⟩, assigned, h⟩ := bind_ok h
    obtain ⟨⟨others, s₂⟩, later, h⟩ := bind_ok h
    cases h
    exact (assignOne_quiet assigned).trans (ih later)

/-! ### Creation -/

variable {c : Creation} {ids : IdSource}

theorem triggerEvents_quiet {events : List UserEvent}
    (h : s.triggerEvents ids now tenant events = .ok c) : Quiet s c.store :=
  (triggerEvents_creates h).quiet

theorem triggerRuns_quiet {requests : List RunRequest}
    (h : s.triggerRuns ids now tenant requests = .ok c) : Quiet s c.store :=
  (triggerRuns_creates h).quiet

theorem matchOutcomes_quiet {events : List OutcomeEvent}
    (h : s.matchOutcomes ids now tenant events = .ok c) : Quiet s c.store :=
  (matchOutcomes_creates h).quiet

end Store

end WorkflowEngine
