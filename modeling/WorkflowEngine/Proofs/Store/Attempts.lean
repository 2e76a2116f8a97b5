import WorkflowEngine.Proofs.Store.Reachable

/-!
The attempts of a task. A batch is its items one after the other, and one item changes at most the
task whose current attempt it names: the attempt goes on, or ends, or it failed and the next attempt
waits. Each failure is paid for out of one of two budgets, so the attempts are bounded by both.
-/

namespace WorkflowEngine

open Fallible Store

/-- The items of a batch, each as a command of its own. -/
def Command.singles : Command → List Command
  | .complete tenant attempts => attempts.map fun a => .complete tenant [a]
  | .fail now tenant failures => failures.map fun f => .fail now tenant [f]
  | .cancel tenant attempts => attempts.map fun a => .cancel tenant [a]
  | .assign now tenant assignments => assignments.map fun a => .assign now tenant [a]
  | c => [c]

/-- The command completes, fails or cancels this attempt and no other. -/
inductive Command.Names (tenant : TenantId) (a : Attempt) : Command → Prop where
  | complete : Names tenant a (.complete tenant [a])
  | fail {now : Instant} {f : Failure} (task : f.task = a) : Names tenant a (.fail now tenant [f])
  | cancel : Names tenant a (.cancel tenant [a])

/-- Retries for timeouts and lost workers stay within the limit of the store, and all retries within
both limits together. -/
structure Task.WithinBudget (limit : Int) (t : Task) : Prop where
  counted : 0 ≤ t.internalRetryCount
  internal : t.internalRetryCount ≤ max 0 limit
  all : t.retryCount ≤ max 0 t.retries + t.internalRetryCount

namespace Store

variable {s s' : Store} {t u : Task} {c : Command} {tenant : TenantId} {now : Instant}
  {a : Attempt} {evicted more : List Attempt}

/-! ### Batches -/

theorem obeyAll_single (s : Store) (c : Command) : s.obeyAll [c] = s.obey c := by
  rw [obeyAll]
  cases s.obey c with
  | error f => rfl
  | ok done =>
    obtain ⟨evicted, s'⟩ := done
    show Except.ok (evicted ++ [], s') = _
    rw [List.append_nil]

theorem complete_singles (s : Store) (tenant : TenantId) (attempts : List Attempt) :
    s.obey (.complete tenant attempts) = s.obeyAll (Command.complete tenant attempts).singles := by
  induction attempts generalizing s with
  | nil => rfl
  | cons a rest ih =>
    show _ = (s.completeOne tenant a).2.obeyAll (Command.complete tenant rest).singles >>= fun later =>
      .ok ([] ++ later.1, later.2)
    rw [← ih]
    rfl

theorem cancel_singles (s : Store) (tenant : TenantId) (attempts : List Attempt) :
    s.obey (.cancel tenant attempts) = s.obeyAll (Command.cancel tenant attempts).singles := by
  induction attempts generalizing s with
  | nil => rfl
  | cons a rest ih =>
    show _ = (s.cancelOne tenant a).2.obeyAll (Command.cancel tenant rest).singles >>= fun later =>
      .ok ([] ++ later.1, later.2)
    rw [← ih]
    rfl

theorem assign_singles (s : Store) (now : Instant) (tenant : TenantId) (as : List Assignment) :
    s.obey (.assign now tenant as) = s.obeyAll (Command.assign now tenant as).singles := by
  induction as generalizing s with
  | nil => rfl
  | cons a rest ih =>
    rw [Command.singles, List.map_cons, obeyAll]
    simp only [obey, assign]
    cases s.assignOne now tenant a with
    | error f => rfl
    | ok first =>
      obtain ⟨r, s₁⟩ := first
      have later := ih s₁
      rw [Command.singles] at later
      simp only [bind, Except.bind, pure, Except.pure] at later ⊢
      rw [← later, obey]
      cases s₁.assign now tenant rest <;> rfl

/-- What was reported before does not matter to the store. -/
theorem fail_singles_from (r : FailureResult) (s : Store) (now : Instant) (tenant : TenantId)
    (failures : List Failure) :
    (do
      let p ← failures.foldlM (fun (r, s) f => do
        let (outcome, s) ← s.failOne now tenant f
        return (FailureResult.add r outcome, s)) (r, s)
      return (([] : List Attempt), p.2)) =
    s.obeyAll (Command.fail now tenant failures).singles := by
  induction failures generalizing r s with
  | nil => rfl
  | cons f rest ih =>
    rw [Command.singles, List.map_cons, obeyAll]
    simp only [obey, fail, List.foldlM_cons, List.foldlM_nil]
    cases s.failOne now tenant f with
    | error x => rfl
    | ok first =>
      obtain ⟨outcome, s₁⟩ := first
      have later := ih (FailureResult.add r outcome) s₁
      rw [Command.singles] at later
      simp only [bind, Except.bind, pure, Except.pure] at later ⊢
      rw [later]
      cases s₁.obeyAll (rest.map fun f => Command.fail now tenant [f]) <;> rfl

/-- A batch comes to the same as its items one after the other. -/
theorem obey_singles (s : Store) (c : Command) : s.obey c = s.obeyAll c.singles := by
  cases c with
  | complete tenant attempts => exact complete_singles s tenant attempts
  | fail now tenant failures => exact fail_singles_from {} s now tenant failures
  | cancel tenant attempts => exact cancel_singles s tenant attempts
  | assign now tenant assignments => exact assign_singles s now tenant assignments
  | _ => exact (obeyAll_single s _).symm

/-- What is kept by every item of a batch is kept by the batch. -/
theorem obey_induction {P : Store → Prop} (sound : s.Sound) (start : P s)
    (step : ∀ s s' more, ∀ c' ∈ c.singles, s.Sound → P s → s.obey c' = .ok (more, s') → P s')
    (done : s.obey c = .ok (more, s')) : P s' := by
  rw [obey_singles] at done
  generalize c.singles = cs at done step
  -- Along the items: the store stays sound, which every step may rely on.
  induction cs generalizing s more with
  | nil =>
    cases done
    exact start
  | cons first rest ih =>
    obtain ⟨⟨evicted, s₁⟩, obeyed, done⟩ := bind_ok done
    obtain ⟨⟨later, s₂⟩, followed, done⟩ := bind_ok done
    cases done
    refine ih ((obey_moves obeyed).sound sound) ?_ followed ?_
    · exact step s s₁ evicted first List.mem_cons_self sound start obeyed
    · exact fun s s' more c' hc' => step s s' more c' (List.mem_cons_of_mem _ hc')

/-- What a single command comes to. -/
inductive Executed (s : Store) : Command → Store → Prop where
  | complete (tenant : TenantId) (a : Attempt) : Executed s (.complete tenant [a]) (s.completeOne tenant a).2
  | cancel (tenant : TenantId) (a : Attempt) : Executed s (.cancel tenant [a]) (s.cancelOne tenant a).2
  | fail {tenant : TenantId} {now : Instant} {f : Failure} {outcome : FailureOutcome} {s' : Store}
      (one : s.failOne now tenant f = .ok (outcome, s')) : Executed s (.fail now tenant [f]) s'
  | assign {tenant : TenantId} {now : Instant} {x : Assignment} {r : Option Attempt} {s' : Store}
      (one : s.assignOne now tenant x = .ok (r, s')) : Executed s (.assign now tenant [x]) s'
  | triggerEvents {tenant : TenantId} {now : Instant} {ids : IdSource} {events : List UserEvent}
      {k : Creation} (triggered : s.triggerEvents ids now tenant events = .ok k) :
      Executed s (.triggerEvents ids now tenant events) k.store
  | triggerRuns {tenant : TenantId} {now : Instant} {ids : IdSource} {requests : List RunRequest}
      {k : Creation} (triggered : s.triggerRuns ids now tenant requests = .ok k) :
      Executed s (.triggerRuns ids now tenant requests) k.store
  | matchOutcomes {tenant : TenantId} {now : Instant} {ids : IdSource} {events : List OutcomeEvent}
      {k : Creation} (matched : s.matchOutcomes ids now tenant events = .ok k) :
      Executed s (.matchOutcomes ids now tenant events) k.store
  | runStrategy (tenant : TenantId) (strategy : Strategy) :
      Executed s (.runStrategy tenant strategy) (s.runStrategy tenant strategy).2
  | refreshActive (tenant : TenantId) (strategy : StrategyId) :
      Executed s (.refreshActive tenant strategy) (s.refreshActive tenant strategy).2
  | registerWorkflow (tenant : TenantId) (w : Workflow) :
      Executed s (.registerWorkflow tenant w) (s.registerWorkflow tenant w).2
  /-- The store is told of a tenant, a worker or a day. -/
  | told {c : Command} (tenants : List Tenant) (workers : List Worker) (partitions : List Date) :
      Executed s c { s with tenants, workers, partitions }

theorem executed_single {batch : Command} (single : c ∈ batch.singles)
    (done : s.obey c = .ok (more, s')) : Executed s c s' := by
  cases batch with
  | complete tenant attempts =>
    obtain ⟨a, _, rfl⟩ := List.mem_map.mp single
    cases done
    exact .complete tenant a
  | cancel tenant attempts =>
    obtain ⟨a, _, rfl⟩ := List.mem_map.mp single
    cases done
    exact .cancel tenant a
  | fail now tenant failures =>
    obtain ⟨f, _, rfl⟩ := List.mem_map.mp single
    obtain ⟨_, failed, done⟩ := bind_ok done
    obtain ⟨_, first, failed⟩ := bind_ok failed
    obtain ⟨_, one, first⟩ := bind_ok first
    cases first
    cases failed
    cases done
    exact .fail one
  | assign now tenant assignments =>
    obtain ⟨x, _, rfl⟩ := List.mem_map.mp single
    obtain ⟨_, assigned, done⟩ := bind_ok done
    obtain ⟨_, one, assigned⟩ := bind_ok assigned
    cases assigned
    cases done
    exact .assign one
  | triggerEvents ids now tenant events =>
    cases List.mem_singleton.mp single
    obtain ⟨_, triggered, done⟩ := bind_ok done
    cases done
    exact .triggerEvents triggered
  | triggerRuns ids now tenant requests =>
    cases List.mem_singleton.mp single
    obtain ⟨_, triggered, done⟩ := bind_ok done
    cases done
    exact .triggerRuns triggered
  | matchOutcomes ids now tenant events =>
    cases List.mem_singleton.mp single
    obtain ⟨_, matched, done⟩ := bind_ok done
    cases done
    exact .matchOutcomes matched
  | runStrategy tenant strategy =>
    cases List.mem_singleton.mp single
    cases done
    exact .runStrategy tenant strategy
  | refreshActive tenant strategy =>
    cases List.mem_singleton.mp single
    cases done
    exact .refreshActive tenant strategy
  | registerWorkflow tenant w =>
    cases List.mem_singleton.mp single
    obtain ⟨_, _, done⟩ := bind_ok done
    cases done
    exact .registerWorkflow tenant w
  | setWorkerActive id active =>
    cases List.mem_singleton.mp single
    obtain ⟨_, set, done⟩ := bind_ok done
    cases done
    unfold setWorkerActive at set
    split at set
    · cases set
    · cases set
      exact .told s.tenants _ s.partitions
  | registerTenant t =>
    cases List.mem_singleton.mp single
    cases done
    exact .told _ s.workers s.partitions
  | registerWorker w =>
    cases List.mem_singleton.mp single
    cases done
    exact .told s.tenants _ s.partitions
  | createPartitions now =>
    cases List.mem_singleton.mp single
    cases done
    exact .told s.tenants s.workers _

/-! ### What an item makes of a task -/

/-- What a single command may make of a task: nothing; or the task had not ended, and its attempt goes
on or ends; or its attempt is failed by name, and the next one waits. -/
inductive Turn (s : Store) (c : Command) (t : Task) : Task → Prop where
  | stays : Turn s c t t
  | goes {u : Task} (live : t.state.isTerminal = false) (id : u.id = t.id)
      (retries : u.retries = t.retries) (attempt : u.retryCount = t.retryCount)
      (internal : u.internalRetryCount = t.internalRetryCount) : Turn s c t u
  | again {u : Task} {now : Instant} {f : Failure} (live : t.state.isTerminal = false)
      (asked : c = .fail now t.tenantId [f]) (named : f.task = t.attempt)
      (may : s.mayRetry t f.isAppError = true) (next : nextAttempt t f.isAppError now = .ok u) :
      Turn s c t u

theorem nextAttempt_counts {isAppError : Bool} (h : nextAttempt t isAppError now = .ok u) :
    u.id = t.id ∧ u.retries = t.retries ∧ u.retryCount = t.retryCount + 1 ∧
      u.internalRetryCount = if isAppError then t.internalRetryCount else t.internalRetryCount + 1 := by
  obtain ⟨deadline, _, h⟩ := bind_ok h
  cases h
  exact ⟨rfl, rfl, rfl, rfl⟩

theorem Turn.id_eq (turn : Turn s c t u) : u.id = t.id := by
  cases turn with
  | stays => rfl
  | goes _ id => exact id
  | again _ _ _ _ next => exact (nextAttempt_counts next).1

theorem Turn.ended (turn : Turn s c t u) (ended : t.state.isTerminal = true) : u = t := by
  cases turn with
  | stays => rfl
  | goes live | again live =>
    rw [live] at ended
    cases ended

/-- A retry is granted out of the budget that it is counted against. -/
theorem Turn.withinBudget (turn : Turn s c t u) (within : t.WithinBudget s.internalRetries) :
    u.WithinBudget s.internalRetries := by
  obtain ⟨counted, internal, all⟩ := within
  cases turn with
  | stays => exact ⟨counted, internal, all⟩
  | goes _ _ retries attempt same =>
    exact ⟨by rwa [same], by rwa [same], by rwa [attempt, retries, same]⟩
  | @again _ _ f _ _ _ may next =>
    obtain ⟨_, retries, attempt, count⟩ := nextAttempt_counts next
    unfold mayRetry at may
    split at may
    · rename_i own
      have left : t.retryCount < t.retries := of_decide_eq_true may
      rw [own, if_pos rfl] at count
      constructor <;> omega
    · rename_i other
      have left : t.internalRetryCount < s.internalRetries := of_decide_eq_true may
      rw [if_neg other] at count
      constructor <;> omega

/-- Every task has taken its turn, and those that are new are at their first attempt. -/
structure Turned (s : Store) (c : Command) (s' : Store) : Prop where
  settings : s'.internalRetries = s.internalRetries
  kept : ∀ t ∈ s.tasks, ∃ u ∈ s'.tasks, Turn s c t u
  origin : ∀ u ∈ s'.tasks, (∃ t ∈ s.tasks, Turn s c t u) ∨
    (u.retryCount = 0 ∧ u.internalRetryCount = 0)

theorem Turned.same (settings : s'.internalRetries = s.internalRetries)
    (tasks : s'.tasks = s.tasks) : Turned s c s' := by
  refine ⟨settings, ?_, ?_⟩
  · exact fun t ht => ⟨t, tasks ▸ ht, .stays⟩
  · exact fun u hu => Or.inl ⟨u, tasks ▸ hu, .stays⟩

theorem Turned.change (settings : s'.internalRetries = s.internalRetries)
    (tasks : s'.tasks = (s.setTask u).tasks) (ordered : s.Ordered) (ht : t ∈ s.tasks)
    (turn : Turn s c t u) : Turned s c s' := by
  have id := turn.id_eq
  refine ⟨settings, ?_, ?_⟩
  · intro v hv
    by_cases mine : v.id = u.id
    · refine ⟨u, ?_, ?_⟩
      · rw [tasks, mem_setTask]
        exact Or.inl ⟨rfl, t, ht, id.symm⟩
      · rw [ordered.eq_of_id hv ht (mine.trans id)]
        exact turn
    · refine ⟨v, ?_, .stays⟩
      rw [tasks, mem_setTask]
      exact Or.inr ⟨hv, mine⟩
  · intro v hv
    rw [tasks, mem_setTask] at hv
    rcases hv with ⟨rfl, _⟩ | ⟨old, _⟩
    · exact Or.inl ⟨t, ht, turn⟩
    · exact Or.inl ⟨v, old, .stays⟩

theorem Ending.turned {a : Attempt} {state : TaskState} {p : Option ReleasedTask × Store}
    (ending : Ending s tenant a state p) (sound : s.Sound) : Turned s c p.2 := by
  cases ending with
  | passed => exact .same rfl rfl
  | ended found =>
    obtain ⟨ht, live⟩ := accepted?_task found
    exact .change rfl rfl sound.ordered ht (.goes live rfl rfl rfl rfl)

theorem assignOne_turned {x : Assignment} {r : Option Attempt} (sound : s.Sound)
    (h : s.assignOne now tenant x = .ok (r, s')) : Turned s c s' := by
  simp only [assignOne] at h
  split at h
  · cases h
    exact .same rfl rfl
  · rename_i t found
    obtain ⟨ht, live⟩ := accepted?_task (Option.filter_eq_some_iff.mp found).1
    obtain ⟨deadline, _, h⟩ := bind_ok h
    cases h
    exact .change rfl rfl sound.ordered ht (.goes live rfl rfl rfl rfl)

theorem failOne_turned {f : Failure} {outcome : FailureOutcome} (sound : s.Sound)
    (h : s.failOne now tenant f = .ok (outcome, s')) :
    Turned s (.fail now tenant [f]) s' := by
  unfold failOne at h
  split at h
  · cases h
    exact .same rfl rfl
  · rename_i t found
    obtain ⟨here, owner, attempt, live⟩ := accepted?_eq_some found
    have ht := (mem_of_task? here).1
    split at h
    · rename_i may
      obtain ⟨next, counted, h⟩ := bind_ok h
      cases h
      have turn : Turn s (.fail now tenant [f]) t next :=
        .again live (by rw [owner]) attempt.symm may counted
      refine .change ?_ ?_ sound.ordered ht turn
      · exact enqueue_only.terms.retries
      · rw [enqueue_tasks]
        rfl
    · cases h
      exact .change rfl rfl sound.ordered ht (.goes live rfl rfl rfl rfl)

theorem creates_turned {ids : IdSource} {named : List ExternalId} {k : Creation}
    (made : Creation.Creates tenant named { store := s, ids } k) : Turned s c k.store := by
  obtain ⟨new, stored, _, _, born⟩ := made.tasks
  refine ⟨made.terms.retries, ?_, ?_⟩
  · exact fun t ht => ⟨t, stored ▸ List.mem_append_left _ ht, .stays⟩
  · intro u hu
    rw [stored] at hu
    rcases List.mem_append.mp hu with old | fresh
    · exact Or.inl ⟨u, old, .stays⟩
    · exact Or.inr ⟨(born u fresh).retryCount, (born u fresh).internalRetryCount⟩

theorem obey_turned {batch : Command} (sound : s.Sound) (single : c ∈ batch.singles)
    (done : s.obey c = .ok (more, s')) : Turned s c s' := by
  cases executed_single single done with
  | complete tenant a => exact (completeOne_ending s tenant a).turned sound
  | cancel tenant a => exact (cancelOne_ending s tenant a).turned sound
  | fail one => exact failOne_turned sound one
  | assign one => exact assignOne_turned sound one
  | triggerEvents triggered => exact creates_turned (triggerEvents_creates triggered)
  | triggerRuns triggered => exact creates_turned (triggerRuns_creates triggered)
  | matchOutcomes matched => exact creates_turned (matchOutcomes_creates matched)
  | runStrategy => exact .same runStrategy_terms.retries runStrategy_tasks
  | refreshActive => exact .same refreshActive_terms.retries (by rw [refreshActive_eq])
  | registerWorkflow | told => exact .same rfl rfl

/-- An item that names no current attempt of a task of the tenant that has not ended changes
nothing. -/
theorem obey_unaccepted (none : s.accepted? tenant a = none) (names : c.Names tenant a) :
    s.obey c = .ok ([], s) := by
  cases names with
  | complete => simp [obey, complete, completeOne, none]
  | fail task => simp [obey, Store.fail, failOne, task, none, pure, Except.pure, bind, Except.bind]
  | cancel => simp [obey, cancel, cancelOne, none]

/-! ### Along a run -/

/-- How the attempts of a task may go, now and from now on. -/
structure Lifecycle (s : Store) : Prop where
  within : ∀ t ∈ s.tasks, t.WithinBudget s.internalRetries
  final : ∀ t ∈ s.tasks, t.state.isTerminal = true → ∀ cs more s',
    s.obeyAll cs = .ok (more, s') → s'.task? t.id = some t
  batches : ∀ c : Command, s.obey c = s.obeyAll c.singles
  counted : ∀ c : Command, ∀ c' ∈ c.singles, ∀ more s', s.obey c' = .ok (more, s') →
    ∀ t ∈ s.tasks, ∃ u, s'.task? t.id = some u ∧ (u.retryCount = t.retryCount ∨
      (u.retryCount = t.retryCount + 1 ∧ t.state.isTerminal = false ∧
        ∃ now f, c' = .fail now t.tenantId [f] ∧ f.task = t.attempt))
  ignored : ∀ (tenant : TenantId) (a : Attempt),
    (∀ t ∈ s.tasks, t.tenantId = tenant → t.attempt = a → t.state.isTerminal = true) →
      ∀ c : Command, c.Names tenant a → s.obey c = .ok ([], s)

theorem obey_within (sound : s.Sound) (within : ∀ t ∈ s.tasks, t.WithinBudget s.internalRetries)
    (done : s.obey c = .ok (more, s')) : ∀ t ∈ s'.tasks, t.WithinBudget s'.internalRetries := by
  refine obey_induction (P := fun s => ∀ t ∈ s.tasks, t.WithinBudget s.internalRetries) sound within
    ?_ done
  intro s s' more c' single sound within obeyed
  obtain ⟨settings, _, origin⟩ := obey_turned sound single obeyed
  intro u hu
  rw [settings]
  rcases origin u hu with ⟨t, ht, turn⟩ | ⟨first, none⟩
  · exact turn.withinBudget (within t ht)
  · constructor <;> omega

theorem obeyAll_final {cs : List Command} (sound : s.Sound) (ht : t ∈ s.tasks)
    (ended : t.state.isTerminal = true) (done : s.obeyAll cs = .ok (more, s')) :
    s'.Sound ∧ t ∈ s'.tasks := by
  induction cs generalizing s more with
  | nil =>
    cases done
    exact ⟨sound, ht⟩
  | cons c rest ih =>
    obtain ⟨⟨evicted, s₁⟩, obeyed, done⟩ := bind_ok done
    obtain ⟨⟨later, s₂⟩, followed, done⟩ := bind_ok done
    cases done
    refine ih ((obey_moves obeyed).sound sound) ?_ followed
    refine obey_induction (P := fun s => t ∈ s.tasks) sound ht ?_ obeyed
    intro s s' more c' single sound ht obeyed
    obtain ⟨u, hu, turn⟩ := (obey_turned sound single obeyed).kept t ht
    rwa [turn.ended ended] at hu

theorem Turn.retryCount (turn : Turn s c t u) : u.retryCount = t.retryCount ∨
    (u.retryCount = t.retryCount + 1 ∧ t.state.isTerminal = false ∧
      ∃ now f, c = .fail now t.tenantId [f] ∧ f.task = t.attempt) := by
  cases turn with
  | stays => exact Or.inl rfl
  | goes _ _ _ attempt => exact Or.inl attempt
  | again live asked named _ next =>
    exact Or.inr ⟨(nextAttempt_counts next).2.2.1, live, _, _, asked, named⟩

/-- The store in which the worker of the first task was lost, the task was run again and
completed. -/
def mailedAgain : Store :=
  match mailed.obeyAll [.fail ⟨0⟩ ⟨3⟩ [⟨⟨1, 0⟩, false, "lost"⟩], .complete ⟨3⟩ [⟨1, 0⟩, ⟨1, 1⟩]] with
  | .ok (_, s) => s
  | .error _ => {}

end Store

end WorkflowEngine
