import Mathlib.Algebra.Group.Int.Defs
import WorkflowEngine.Proofs.ReadModel.Ownership

/-!
The queue of a pass over events: what is taken and what is kept, and what comes back. An event comes back
if its task has no row, unless it has come back as often as it may; it is then due after a delay that
doubles each time.
-/

namespace WorkflowEngine

open Fallible

/-! ### Taking what is due -/

namespace ReadModel

variable {α β : Type} {due : α → Bool} {limit : Nat} {l : List α} {a : α}

theorem takeDue_map (f : β → α) (limit : Nat) (l : List β) : takeDue due limit (l.map f) =
    ((takeDue (due ∘ f) limit l).1.map f, (takeDue (due ∘ f) limit l).2.map f) := by
  induction l generalizing limit with
  | nil => simp [takeDue]
  | cons b rest ih =>
    cases limit with
    | zero => rfl
    | succ limit =>
      simp only [List.map_cons, takeDue, Function.comp_apply]
      split
      · rw [ih]
        rfl
      · rw [ih]
        rfl

theorem takeDue_perm (due : α → Bool) (limit : Nat) (l : List α) :
    ((takeDue due limit l).1 ++ (takeDue due limit l).2).Perm l := by
  induction l generalizing limit with
  | nil => simp [takeDue]
  | cons b rest ih =>
    cases limit with
    | zero => exact .refl _
    | succ limit =>
      unfold takeDue
      split
      · exact (ih limit).cons b
      · exact List.perm_middle.trans ((ih (limit + 1)).cons b)

/-- If one element satisfies a condition, it is taken, being due, or it is kept. -/
theorem takeDue_one (due : α → Bool) (limit : Nat) {p : α → Bool} (one : l.filter p = [a]) :
    ((takeDue due limit l).1.filter p = [a] ∧ (takeDue due limit l).2.filter p = [] ∧ due a = true) ∨
      (takeDue due limit l).1.filter p = [] ∧ (takeDue due limit l).2.filter p = [a] := by
  have both := (takeDue_perm due limit l).filter p
  rw [one, List.filter_append, List.perm_singleton, List.append_eq_singleton_iff] at both
  rcases both with ⟨none, kept⟩ | ⟨taken, none⟩
  · exact Or.inr ⟨none, kept⟩
  · refine Or.inl ⟨taken, none, ?_⟩
    have member : a ∈ (takeDue due limit l).1.filter p := taken ▸ List.mem_singleton_self a
    exact takeDue_due (List.mem_filter.mp member).1

theorem takeDue_none (due : α → Bool) (limit : Nat) {p : α → Bool} (none : l.filter p = []) :
    (takeDue due limit l).1.filter p = [] ∧ (takeDue due limit l).2.filter p = [] := by
  have both := (takeDue_perm due limit l).filter p
  rwa [none, List.filter_append, List.perm_nil, List.append_eq_nil_iff] at both

theorem takeDue_sublist (due : α → Bool) (limit : Nat) (l : List α) :
    (takeDue due limit l).2.Sublist l := by
  induction l generalizing limit with
  | nil => simp [takeDue]
  | cons b rest ih =>
    cases limit with
    | zero => exact List.Sublist.refl _
    | succ limit =>
      unfold takeDue
      split
      · exact (ih limit).cons b
      · exact (ih (limit + 1)).cons_cons b

/-- If the limit is not reached, everything that is due is taken. -/
theorem takeDue_short (few : (takeDue due limit l).1.length < limit) :
    ∀ a ∈ (takeDue due limit l).2, due a = false := by
  induction l generalizing limit with
  | nil => simp [takeDue]
  | cons b rest ih =>
    cases limit with
    | zero => exact absurd few (Nat.not_lt_zero _)
    | succ limit =>
      unfold takeDue at few ⊢
      split at few
      · rename_i here
        rw [if_pos here]
        exact ih (Nat.lt_of_succ_lt_succ few)
      · rename_i early
        rw [if_neg early]
        exact List.forall_mem_cons.mpr ⟨by simpa using early, ih few⟩

/-- What has a property that all due elements have grows less by just what is taken. -/
theorem takeDue_fewer {ripe : α → Bool} (all : ∀ a, due a = true → ripe a = true) :
    ((takeDue due limit l).2.filter ripe).length + (takeDue due limit l).1.length =
      (l.filter ripe).length := by
  have both := ((takeDue_perm due limit l).filter ripe).length_eq
  have taken : (takeDue due limit l).1.filter ripe = (takeDue due limit l).1 :=
    List.filter_eq_self.mpr fun a ha => all a (takeDue_due ha)
  rw [List.filter_append, taken, List.length_append] at both
  omega

/-- What is never due stays as it is. -/
theorem takeDue_others {other : α → Bool} (apart : ∀ a, due a = true → other a = false) :
    (takeDue due limit l).2.filter other = l.filter other := by
  induction l generalizing limit with
  | nil => simp [takeDue]
  | cons b rest ih =>
    cases limit with
    | zero => rfl
    | succ limit =>
      unfold takeDue
      split
      · rename_i here
        rw [List.filter_cons_of_neg (by simp [apart b here])]
        exact ih
      · rw [List.filter_cons, List.filter_cons, ih]

end ReadModel

/-! ### Events that come back -/

theorem deadline_value {now t : Instant} {seconds : Int} (h : Task.deadline now seconds = .ok t) :
    t = ⟨now.nanos + seconds * 1000000000⟩ := by
  unfold Task.deadline Instant.addSeconds? Instant.addNanos? at h
  split at h
  · rename_i found
    split_ifs at found
    cases h
    exact (Option.some.inj found).symm
  · cases h

theorem requeueDelay_exact {k : Nat} (few : k < 10) : requeueDelay k = 2 ^ (k + 1) := by
  have each : ∀ k < 10, requeueDelay (k : Nat) = 2 ^ (k + 1) := by decide
  exact each k few

namespace Pending

variable {p q : Pending} {now : Instant}

theorem requeued_some (h : p.requeued now = .ok (some q)) : p.requeueRetries < maxRequeues ∧
    q = { p with
      requeueAfter := ⟨now.nanos + requeueDelay p.requeueRetries * 1000000000⟩
      requeueRetries := p.requeueRetries + 1 } := by
  unfold requeued at h
  split at h
  · cases h
  · rename_i more
    obtain ⟨after, deadline, h⟩ := bind_ok h
    cases h
    rw [deadline_value deadline]
    exact ⟨Int.not_le.mp more, rfl⟩

theorem requeued_none (h : p.requeued now = .ok none) : maxRequeues ≤ p.requeueRetries := by
  unfold requeued at h
  split at h
  · rename_i often
    exact often
  · obtain ⟨_, _, h⟩ := bind_ok h
    cases h

end Pending

/-! ### The queue after a pass -/

namespace ReadModel

variable {m m' : ReadModel} {i : TaskId} {tenant : TenantId} {share limit n : Nat} {now : Instant}

theorem task?_isSome_congr (ids : m'.tasks.map (·.id) = m.tasks.map (·.id)) (i : TaskId) :
    (m'.task? i).isSome = (m.task? i).isSome := by
  have listed (m : ReadModel) : (m.task? i).isSome = (m.tasks.map (·.id)).any (· == i) := by
    rw [Bool.eq_iff_iff, task?, List.find?_isSome]
    simp
  rw [listed, listed, ids]

/-- How an event comes back from a pass, if it does. -/
def again? (m : ReadModel) (now : Instant) (p : Pending) : Option Pending :=
  if (m.task? p.taskId).isSome then none else (p.requeued now).toOption.join

theorem again?_some {p q : Pending} (back : m.again? now p = some q) :
    p.requeueRetries < maxRequeues ∧ q = { p with
      requeueAfter := ⟨now.nanos + requeueDelay p.requeueRetries * 1000000000⟩
      requeueRetries := p.requeueRetries + 1 } := by
  unfold again? at back
  split at back
  · cases back
  · cases requeued : p.requeued now with
    | error fault =>
      rw [requeued] at back
      cases back
    | ok o =>
      rw [requeued] at back
      cases back
      exact Pending.requeued_some requeued

/-- What is not taken stays in its place, and what comes back comes behind it. -/
theorem foldTasks_queue (done : m.foldTasks tenant share limit now = .ok (n, m')) :
    n = (m.due tenant share limit now).length ∧
    (∀ p ∈ m.due tenant share limit now, m.task? p.taskId = none → ∃ o, p.requeued now = .ok o) ∧
    m'.pendingEvents = (takeDue (eventDue tenant share now) limit m.pendingEvents).2 ++
      ((m.due tenant share limit now).filterMap (m.again? now)).map (share, ·) := by
  simp only [foldTasks] at done
  obtain ⟨m₁, back, done⟩ := bind_ok done
  cases done
  obtain ⟨again, requeued, back⟩ := bind_ok back
  cases back
  -- Candidates add no row and remove none, so that rows may be looked up before as well.
  have rows : ∀ p : Pending, (((applyAll { m with
      pendingEvents := (takeDue (eventDue tenant share now) limit m.pendingEvents).2 }
        (foldPending (m.due tenant share limit now))).2.task? p.taskId).isNone = true) ↔
          m.task? p.taskId = none := by
    intro p
    rw [← Option.isSome_eq_false_iff, task?_isSome_congr applyAll_ids]
    exact Option.isSome_eq_false_iff.trans Option.isNone_iff_eq_none
  refine ⟨rfl, fun p member missing => ?_, ?_⟩
  · exact filterMapM_each requeued p (List.mem_filter.mpr ⟨member, (rows p).mpr missing⟩)
  · rw [queueDags_same.2.1, filterMapM_ok requeued, List.filterMap_filter, applyAll_pending.1]
    refine congrArg (fun again : List Pending => _ ++ again.map (share, ·)) ?_
    refine List.filterMap_congr fun p _ => ?_
    rw [again?]
    by_cases missing : m.task? p.taskId = none
    · rw [if_pos ((rows p).mpr missing), missing]
      rfl
    · rw [if_neg (mt (rows p).mp missing), if_pos (Option.isSome_iff_ne_none.mpr missing)]

end ReadModel

end WorkflowEngine
