import WorkflowEngine.Proofs.Store.Eviction
import WorkflowEngine.Proofs.Store.InPlace

/-!
Failures through no fault of the attempt. The store grants each task a number of retries for them, and
each failure takes one of these or ends the task, so that however soon a task is found again, it is
found only so often.
-/

namespace WorkflowEngine.Store

open Fallible

variable {s s' s₁ s₂ : Store} {t u : Task} {now : Instant} {tenant : TenantId} {a : Attempt}
  {f : Failure} {failures : List Failure} {x : Fault}

/-! ### Lives -/

/-- How many such failures a task of the tenant can take: one for each retry that it has left, and the
last one. -/
def livesOf (limit : Int) (tenant : TenantId) (t : Task) : Nat :=
  if t.tenantId = tenant ∧ t.state.isTerminal = false then (limit - t.internalRetryCount).toNat + 1
  else 0

def lives (s : Store) (tenant : TenantId) : Nat :=
  (s.tasks.map (livesOf s.internalRetries tenant)).sum

theorem sum_replace (w : Task → Nat) {ts : List Task} (ordered : ts.Pairwise fun a b => a.id < b.id)
    (ht : t ∈ ts) (id : u.id = t.id) :
    ((ts.map fun v => if v.id == u.id then u else v).map w).sum + w t = (ts.map w).sum + w u := by
  induction ts with
  | nil => cases ht
  | cons v rest ih =>
    obtain ⟨least, ordered⟩ := List.pairwise_cons.mp ordered
    simp only [List.map_cons, List.sum_cons]
    rcases List.mem_cons.mp ht with rfl | later
    · have others : rest.map (fun v => if v.id == u.id then u else v) = rest := by
        refine (List.map_congr_left fun v hv => if_neg ?_).trans (List.map_id' rest)
        rw [beq_iff_eq, id]
        exact (Int.ne_of_lt (least v hv)).symm
      rw [others, if_pos (beq_iff_eq.mpr id.symm)]
      omega
    · have other : ¬ (v.id == u.id) = true := by
        rw [beq_iff_eq, id]
        exact Int.ne_of_lt (least t later)
      have total := ih ordered later
      rw [if_neg other]
      omega

/-! ### One failure -/

/-- A task behind such a failure: its next attempt waits, for one of the retries that the store grants, or
it has ended. -/
inductive Struck (limit : Int) (t u : Task) : Prop
  | again (left : t.internalRetryCount < limit) (attempt : u.retryCount = t.retryCount + 1)
      (counted : u.internalRetryCount = t.internalRetryCount + 1)
  | ended (attempt : u.retryCount = t.retryCount) (state : u.state.isTerminal = true)

theorem Struck.livesOf_lt {limit : Int} (struck : Struck limit t u) (owner : t.tenantId = tenant)
    (live : t.state.isTerminal = false) : livesOf limit tenant u < livesOf limit tenant t := by
  have before : livesOf limit tenant t = (limit - t.internalRetryCount).toNat + 1 := if_pos ⟨owner, live⟩
  cases struck with
  | again left _ counted =>
    rw [before, livesOf]
    split <;> omega
  | ended _ state =>
    have after : livesOf limit tenant u = 0 := if_neg fun both => by
      rw [state] at both
      cases both.2
    omega

/-- The store behind such a failure. -/
inductive Fails (s : Store) (tenant : TenantId) (a : Attempt) (s' : Store) : Prop
  | passed (absent : s.accepted? tenant a = none) (same : s' = s)
  | struck {t u : Task} (found : s.accepted? tenant a = some t) (tasks : s'.tasks = (s.setTask u).tasks)
      (keeps : t.Keeps u) (waits : u.scheduleTimeoutSecs = t.scheduleTimeoutSecs)
      (retries : s'.internalRetries = s.internalRetries) (workers : s'.workers = s.workers)
      (struck : Struck s.internalRetries t u)

theorem enqueue_workers : (s.enqueue t).workers = s.workers := by
  unfold enqueue
  split <;> rfl

theorem failed_fails (own : f.isAppError = false) (done : s.failed now tenant f = .ok s') :
    Fails s tenant f.task s' := by
  obtain ⟨⟨outcome, s₁⟩, one, done⟩ := bind_ok done
  cases done
  unfold failOne at one
  split at one
  · rename_i absent
    cases one
    exact .passed absent rfl
  · rename_i t found
    simp only [mayRetry, own, Bool.false_eq_true, if_false, decide_eq_true_eq] at one
    split at one
    · rename_i left
      obtain ⟨next, counted, one⟩ := bind_ok one
      obtain ⟨deadline, _, counted⟩ := bind_ok counted
      cases counted
      cases one
      refine .struck found enqueue_tasks ⟨rfl, rfl, rfl, rfl, rfl⟩ rfl enqueue_only.terms.retries
        enqueue_workers (.again left rfl rfl)
    · cases one
      exact .struck found rfl ⟨rfl, rfl, rfl, rfl, rfl⟩ rfl rfl rfl (.ended rfl rfl)

/-- Nothing but a deadline beyond the calendar stops a failure. -/
theorem failed_stopped (stopped : s.failed now tenant f = .error x) :
    ∃ t, s.accepted? tenant f.task = some t ∧ Task.deadline now t.scheduleTimeoutSecs = .error x := by
  rcases bind_error stopped with stopped | ⟨_, _, done⟩
  · unfold failOne at stopped
    split at stopped
    · cases stopped
    · rename_i t found
      split at stopped
      · rcases bind_error stopped with late | ⟨_, _, done⟩
        · rcases bind_error late with late | ⟨_, _, done⟩
          · exact ⟨t, found, late⟩
          · cases done
        · cases done
      · cases stopped
  · cases done

/-! ### Failures one after the other -/

/-- Lives were spent and nothing else was done: each attempt is as it was, or is over. -/
structure Spends (tenant : TenantId) (s s' : Store) : Prop where
  sound : s'.Sound
  workers : s'.workers = s.workers
  lives : s'.lives tenant ≤ s.lives tenant
  kept : ∀ t ∈ s.tasks, t ∈ s'.tasks ∨ s'.Past t.attempt
  origin : ∀ u ∈ s'.tasks, ∃ t ∈ s.tasks, t.tenantId = u.tenantId ∧
    t.scheduleTimeoutSecs = u.scheduleTimeoutSecs ∧ (t.state.isTerminal = true → u.state.isTerminal = true)

theorem Spends.refl (sound : s.Sound) : Spends tenant s s :=
  ⟨sound, rfl, Nat.le_refl _, fun _ => Or.inl, fun u hu => ⟨u, hu, rfl, rfl, id⟩⟩

/-- An attempt that is over remains so. -/
theorem Spends.past (spends : Spends tenant s s') (past : s.Past a) : s'.Past a := by
  obtain ⟨t, ht, id, gone⟩ := past
  rcases spends.kept t ht with same | ⟨u, hu, same, later⟩
  · exact ⟨t, same, id, gone⟩
  · refine ⟨u, hu, same.trans id, ?_⟩
    change t.retryCount < u.retryCount ∨ u.retryCount = t.retryCount ∧ u.state.isTerminal = true at later
    have kept : a.retryCount ≤ t.retryCount := gone.elim Int.le_of_lt fun same => same.1.ge
    rcases later with next | ⟨equal, ended⟩
    · exact Or.inl (kept.trans_lt next)
    · rw [equal]
      exact gone.imp_right fun same => ⟨same.1, ended⟩

/-- A task that has not ended had not ended before. -/
theorem Spends.live (spends : Spends tenant s s') (hu : u ∈ s'.tasks)
    (live : u.state.isTerminal = false) : ∃ t ∈ s.tasks, t.tenantId = u.tenantId ∧
      t.state.isTerminal = false ∧ t.scheduleTimeoutSecs = u.scheduleTimeoutSecs := by
  obtain ⟨t, ht, owner, waits, ends⟩ := spends.origin u hu
  refine ⟨t, ht, owner, Bool.eq_false_iff.mpr fun ended => ?_, waits⟩
  rw [ends ended] at live
  cases live

theorem Spends.trans (first : Spends tenant s s₁) (second : Spends tenant s₁ s₂) :
    Spends tenant s s₂ := by
  refine ⟨second.sound, second.workers.trans first.workers, second.lives.trans first.lives, ?_, ?_⟩
  · intro t ht
    rcases first.kept t ht with same | past
    · exact second.kept t same
    · exact Or.inr (second.past past)
  · intro v hv
    obtain ⟨u, hu, owner, waits, ends⟩ := second.origin v hv
    obtain ⟨t, ht, owner', waits', ends'⟩ := first.origin u hu
    exact ⟨t, ht, owner'.trans owner, waits'.trans waits, ends ∘ ends'⟩

/-- A failure of a current attempt takes a life, and the attempt is over. -/
theorem Fails.spends (fails : Fails s tenant a s') (sound : s.Sound) (after : s'.Sound) :
    Spends tenant s s' ∧ ∀ t, s.accepted? tenant a = some t →
      s'.Past a ∧ s'.lives tenant < s.lives tenant := by
  cases fails with
  | passed absent same =>
    subst same
    refine ⟨.refl sound, fun t found => ?_⟩
    rw [absent] at found
    cases found
  | @struck t u found tasks keeps waits retries workers struck =>
    obtain ⟨here, owner, attempt, live⟩ := accepted?_eq_some found
    have ht := (mem_of_task? here).1
    have fewer : s'.lives tenant < s.lives tenant := by
      let w := livesOf s.internalRetries tenant
      have total : ((s.setTask u).tasks.map w).sum + w t = (s.tasks.map w).sum + w u :=
        sum_replace w sound.ordered ht keeps.id
      have less : w u < w t := struck.livesOf_lt owner live
      rw [lives, lives, tasks, retries]
      change ((s.setTask u).tasks.map w).sum < (s.tasks.map w).sum
      omega
    have past : s'.Past t.attempt := by
      refine ⟨u, ?_, keeps.id, ?_⟩
      · rw [tasks]
        exact mem_setTask.mpr (Or.inl ⟨rfl, t, ht, keeps.id.symm⟩)
      · cases struck with
        | again _ next => exact Or.inl (next ▸ Int.lt_succ t.retryCount)
        | ended same state => exact Or.inr ⟨same, state⟩
    refine ⟨⟨after, workers, fewer.le, fun v hv => ?_, fun v hv => ?_⟩, fun t' found' => ?_⟩
    · by_cases mine : v.id = u.id
      · obtain rfl := sound.ordered.eq_of_id hv ht (mine.trans keeps.id)
        exact Or.inr past
      · rw [tasks]
        exact Or.inl (mem_setTask.mpr (Or.inr ⟨hv, mine⟩))
    · rw [tasks] at hv
      rcases mem_setTask.mp hv with ⟨rfl, _⟩ | ⟨old, _⟩
      · refine ⟨t, ht, keeps.tenant.symm, waits.symm, fun ended => ?_⟩
        rw [live] at ended
        cases ended
      · exact ⟨v, old, rfl, rfl, id⟩
    · exact ⟨attempt ▸ past, fewer⟩

theorem failed_sound (sound : s.Sound) (done : s.failed now tenant f = .ok s') : s'.Sound := by
  obtain ⟨⟨outcome, s₁⟩, one, done⟩ := bind_ok done
  cases done
  exact (failOne_quiet one).sound sound

theorem failed_spends (sound : s.Sound) (own : f.isAppError = false)
    (done : s.failed now tenant f = .ok s') : Spends tenant s s' ∧
      ∀ t, s.accepted? tenant f.task = some t → s'.Past f.task ∧ s'.lives tenant < s.lives tenant :=
  (failed_fails own done).spends sound (failed_sound sound done)

/-- Behind failures of current attempts these attempts are over. -/
theorem failAll_spends (sound : s.Sound) (own : ∀ f ∈ failures, f.isAppError = false)
    (done : failures.foldlM (fun s f => s.failed now tenant f) s = .ok s') :
    Spends tenant s s' ∧ ∀ f ∈ failures, ∀ t, s.accepted? tenant f.task = some t → s'.Past f.task := by
  induction failures generalizing s with
  | nil =>
    cases done
    exact ⟨.refl sound, List.forall_mem_nil _⟩
  | cons f rest ih =>
    obtain ⟨first, own⟩ := List.forall_mem_cons.mp own
    rw [List.foldlM_cons] at done
    obtain ⟨s₁, one, done⟩ := bind_ok done
    obtain ⟨spends, gone⟩ := failed_spends sound first one
    obtain ⟨more, others⟩ := ih spends.sound own done
    refine ⟨spends.trans more, List.forall_mem_cons.mpr ⟨fun t found => ?_, fun f' hf t found => ?_⟩⟩
    · exact more.past (gone t found).1
    · -- a current attempt further on is still current here, or was listed twice and is over
      obtain ⟨here, owner, attempt, live⟩ := accepted?_eq_some found
      rcases spends.kept t (mem_of_task? here).1 with same | past
      · refine others f' hf t ?_
        rw [← attempt, ← owner]
        exact spends.sound.ordered.accepted?_eq same live
      · exact more.past (attempt ▸ past)

theorem failAll_fewer (sound : s.Sound) (own : ∀ f' ∈ f :: failures, f'.isAppError = false)
    (found : s.accepted? tenant f.task = some t)
    (done : (f :: failures).foldlM (fun s f => s.failed now tenant f) s = .ok s') :
    s'.lives tenant < s.lives tenant := by
  obtain ⟨first, own⟩ := List.forall_mem_cons.mp own
  rw [List.foldlM_cons] at done
  obtain ⟨s₁, one, done⟩ := bind_ok done
  obtain ⟨spends, gone⟩ := failed_spends sound first one
  exact (failAll_spends spends.sound own done).1.lives.trans_lt (gone t found).2

theorem failAll_stopped (sound : s.Sound) (own : ∀ f ∈ failures, f.isAppError = false)
    (stopped : failures.foldlM (fun s f => s.failed now tenant f) s = .error x) :
    ∃ t ∈ s.tasks, t.tenantId = tenant ∧ t.state.isTerminal = false ∧
      Task.deadline now t.scheduleTimeoutSecs = .error x := by
  induction failures generalizing s with
  | nil => cases stopped
  | cons f rest ih =>
    obtain ⟨first, own⟩ := List.forall_mem_cons.mp own
    rw [List.foldlM_cons] at stopped
    rcases bind_error stopped with late | ⟨s₁, one, stopped⟩
    · obtain ⟨t, found, late⟩ := failed_stopped late
      obtain ⟨here, owner, -, live⟩ := accepted?_eq_some found
      exact ⟨t, (mem_of_task? here).1, owner, live, late⟩
    · obtain ⟨spends, -⟩ := failed_spends sound first one
      obtain ⟨u, hu, owner, live, late⟩ := ih spends.sound own stopped
      obtain ⟨t, ht, owner', live', waits⟩ := spends.live hu live
      exact ⟨t, ht, owner'.trans owner, live', waits ▸ late⟩

end WorkflowEngine.Store
