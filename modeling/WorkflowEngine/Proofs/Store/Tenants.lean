import WorkflowEngine.Effect.Request
import WorkflowEngine.Proofs.Fallible

/-!
No request changes which tenants there are, nor does announcing attempts that failed, in whatever state
the store is. Tenants are registered by a command of their own.
-/

namespace WorkflowEngine

open Fallible

variable {s s' : Store} {c c' : Creation} {tenant : TenantId} {now : Instant} {ids : IdSource}
  {w : RegisteredWorkflow} {r : RunRequest}

/-! ### Attempts -/

namespace Store

theorem enqueue_tenants (s : Store) (t : Task) : (s.enqueue t).tenants = s.tenants := by
  unfold enqueue
  split <;> rfl

theorem completeOne_tenants (s : Store) (tenant : TenantId) (a : Attempt) :
    (s.completeOne tenant a).2.tenants = s.tenants := by
  unfold completeOne
  split <;> rfl

theorem complete_tenants (s : Store) (tenant : TenantId) (as : List Attempt) :
    (s.complete tenant as).2.tenants = s.tenants := by
  induction as generalizing s with
  | nil => rfl
  | cons a rest ih => exact (ih _).trans (s.completeOne_tenants tenant a)

theorem cancelOne_tenants (s : Store) (tenant : TenantId) (a : Attempt) :
    (s.cancelOne tenant a).2.tenants = s.tenants := by
  unfold cancelOne
  split <;> rfl

theorem cancel_tenants (s : Store) (tenant : TenantId) (as : List Attempt) :
    (s.cancel tenant as).2.tenants = s.tenants := by
  induction as generalizing s with
  | nil => rfl
  | cons a rest ih => exact (ih _).trans (s.cancelOne_tenants tenant a)

theorem failOne_tenants {f : Failure} {o : FailureOutcome}
    (done : s.failOne now tenant f = .ok (o, s')) : s'.tenants = s.tenants := by
  unfold failOne at done
  split at done
  · cases done
    rfl
  · split at done
    · obtain ⟨next, _, done⟩ := bind_ok done
      cases done
      exact enqueue_tenants _ next
    · cases done
      rfl

theorem fail_tenants {fs : List Failure} {result : FailureResult}
    (done : s.fail now tenant fs = .ok (result, s')) : s'.tenants = s.tenants := by
  refine foldlM_ok (P := fun p : FailureResult × Store => p.2.tenants = s.tenants) done rfl ?_
  rintro ⟨r, s₁⟩ f - ⟨r', s₂⟩ same step
  obtain ⟨⟨o, s₃⟩, failed, step⟩ := bind_ok step
  cases step
  exact (failOne_tenants failed).trans same

theorem insertTask_tenants {step : Step} {n : NewTask} {t : Task}
    (done : s.insertTask w step n now = .ok (t, s')) : s'.tenants = s.tenants := by
  simp only [insertTask] at done
  split at done
  · obtain ⟨_, _, done⟩ := bind_ok done
    cases done
    exact enqueue_tenants _ _
  · cases done
    rfl

theorem noteOutcome_tenants (s : Store) (tenant : TenantId) (e : OutcomeEvent) :
    (s.noteOutcome tenant e).tenants = s.tenants := by
  unfold noteOutcome
  repeat' split
  all_goals rfl

end Store

/-! ### Creation -/

namespace Creation

/-- Tasks and runs were created among the same tenants. -/
abbrev SameTenants (c c' : Creation) : Prop := c'.store.tenants = c.store.tenants

theorem addTask_tenants {step : Step} {n : NewTask} (done : c.addTask w step n now = .ok c') :
    SameTenants c c' := by
  obtain ⟨⟨t, store⟩, inserted, done⟩ := bind_ok done
  cases done
  exact Store.insertTask_tenants inserted

theorem addRoot_tenants {d : Dag} {step : Step} (done : c.addRoot w r d step = .ok c') :
    SameTenants c c' :=
  addTask_tenants (c := { c with ids := c.ids.draw.2 }) done

theorem addRun_tenants (done : c.addRun w r now = .ok c') : SameTenants c c' := by
  unfold addRun at done
  split at done
  · cases done
    rfl
  · split at done
    · obtain ⟨c₁, roots, done⟩ := bind_ok done
      cases done
      exact foldlM_ok (P := fun c₁ => c₁.store.tenants = c.store.tenants) roots rfl
        fun _ _ _ _ same step => (addRoot_tenants step).trans same
    · unfold addSingle at done
      split at done
      · cases done
        rfl
      · exact addTask_tenants done

theorem addEvent_tenants {e : UserEvent} (done : c.addEvent tenant now e = .ok c') :
    SameTenants c c' :=
  foldlM_ok (P := SameTenants c) done rfl fun c₁ _ _ _ same step =>
    (addRun_tenants (c := { c₁ with ids := c₁.ids.draw.2 }) step).trans same

theorem addRequest_tenants (done : c.addRequest tenant now r = .ok c') : SameTenants c c' := by
  unfold addRequest at done
  split at done
  · cases done
    rfl
  · split at done
    · exact addRun_tenants done
    · split at done
      · cases done
        rfl
      · obtain ⟨c₁, ran, done⟩ := bind_ok done
        cases done
        have same : SameTenants c c₁ := addRun_tenants ran
        exact same

theorem addReady_tenants {x : WaitingStep} (done : c.addReady tenant now x = .ok c') :
    SameTenants c c' := by
  unfold addReady at done
  simp only at done
  split at done
  · cases done
    rfl
  · exact addTask_tenants (c := { c with ids := c.ids.draw.2 }) done

end Creation

namespace Store

theorem triggerEvents_tenants {events : List UserEvent}
    (done : s.triggerEvents ids now tenant events = .ok c) : c.store.tenants = s.tenants := by
  obtain ⟨_, _, done⟩ := bind_ok done
  exact foldlM_ok (P := fun c => c.store.tenants = s.tenants) done rfl
    fun _ _ _ _ same step => (Creation.addEvent_tenants step).trans same

theorem triggerRuns_tenants {requests : List RunRequest}
    (done : s.triggerRuns ids now tenant requests = .ok c) : c.store.tenants = s.tenants := by
  obtain ⟨_, _, done⟩ := bind_ok done
  exact foldlM_ok (P := fun c => c.store.tenants = s.tenants) done rfl
    fun _ _ _ _ same step => (Creation.addRequest_tenants step).trans same

theorem matchOutcomes_tenants {events : List OutcomeEvent}
    (done : s.matchOutcomes ids now tenant events = .ok c) : c.store.tenants = s.tenants := by
  obtain ⟨_, _, done⟩ := bind_ok done
  have noted : (events.foldl (fun s e => s.noteOutcome tenant e) s).tenants = s.tenants :=
    List.foldlRecOn (motive := fun s' : Store => s'.tenants = s.tenants) _ _ rfl
      fun s' same e _ => (s'.noteOutcome_tenants tenant e).trans same
  exact foldlM_ok (P := fun c => c.store.tenants = s.tenants) done noted
    fun _ _ _ _ same step => (Creation.addReady_tenants step).trans same

end Store

/-! ### Requests and sweeps -/

theorem failAndAnnounce_tenants {fs : List Failure} {result : FailureResult} {postings : List Posting}
    {counts : List (Counter × Nat)}
    (done : failAndAnnounce s now tenant fs = .ok (result, s', postings, counts)) :
    s'.tenants = s.tenants := by
  obtain ⟨⟨r, s₁⟩, failed, done⟩ := bind_ok done
  cases done
  exact Store.fail_tenants failed

theorem serve_tenants {r : Request} {x : Effect} (served : Request.serve s ids now tenant r = .ok x) :
    x.store.tenants = s.tenants := by
  cases r with
  | complete ps =>
    cases served
    exact s.complete_tenants tenant _
  | cancel ps =>
    cases served
    exact s.cancel_tenants tenant _
  | fail ps =>
    obtain ⟨⟨result, s₁, postings, counts⟩, failed, served⟩ := bind_ok served
    cases served
    exact failAndAnnounce_tenants failed
  | userEvents ps =>
    obtain ⟨c, created, served⟩ := bind_ok served
    cases served
    exact Store.triggerEvents_tenants created
  | trigger ps =>
    obtain ⟨c, created, served⟩ := bind_ok served
    cases served
    exact Store.triggerRuns_tenants created
  | internalEvents ps =>
    obtain ⟨c, created, served⟩ := bind_ok served
    cases served
    exact Store.matchOutcomes_tenants created

end WorkflowEngine
